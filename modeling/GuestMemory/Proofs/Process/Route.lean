import Mathlib.Data.List.Basic
import GuestMemory.Process
import GuestMemory.Proofs.Since
import GuestMemory.Proofs.Window.Changes

/-!
Where the host faults of a process go. They go to the space whose window came up last, from then on
until that window is given up, and to none after that, in whichever order spaces are made, shut down
and dropped. So they never go to a space that has no window any more; and this is also what one word
says that is compared and overwritten with addresses of which the host uses some again.
-/
namespace GuestMemory

namespace Space

variable {σ : Type}

theorem isSome_window_step (s : Space σ) {c : Command σ} (hc : c ≠ .shutdown) :
    (s.step c).2.window.isSome = s.window.isSome :=
  s.drained.isSome_window_perform hc

theorem window_step_shutdown (s : Space σ) : (s.step .shutdown).2.window = none :=
  s.drained.window_shutdown

end Space

namespace Process

variable {σ : Type} {p p' : Process σ} {c : Command σ} {s t : Space σ} {id i : Nat}

def isOpen (p : Process σ) (id : Nat) : Bool := (p.space? id).any (·.window.isSome)

namespace Command

/-- Whether a space is made: the host grants the arena that the settings ask for, and the window if
they ask for one. -/
def makes : Command σ → Bool
  | .create place settings _ kernel =>
    (Arena.create place.arena settings.arenaSize kernel).isOk &&
      (if settings.window && !settings.cacheModel then kernel.windowRefusal else none).isNone
  | _ => false

def opens (c : Command σ) : Bool :=
  c.makes && match c with
    | .create _ settings .. => settings.window && !settings.cacheModel
    | _ => false

def ended? : Command σ → Option Nat
  | .call id .shutdown | .drop id => some id
  | _ => none

theorem makes_of_opens (h : c.opens = true) : c.makes = true := (Bool.and_eq_true_iff.1 h).1

theorem opens_eq_false (h : c.makes = false) : c.opens = false := by
  unfold opens
  rw [h, Bool.false_and]

theorem ended?_of_makes (h : c.makes = true) : c.ended? = none := by
  cases c <;> first | rfl | cases h

theorem ended?_call {d : Space.Command σ} (h : d ≠ .shutdown) : ended? (.call i d) = none := by
  cases d <;> first | rfl | exact absurd rfl h

end Command

theorem space?_setSpace (p : Process σ) (i : Nat) (t : Space σ) (id : Nat) :
    (p.setSpace i t).space? id = (p.space? id).map fun s => if id = i then t else s := by
  rw [space?, setSpace, space?]
  induction p.spaces with
  | nil => rfl
  | cons e spaces ih =>
    obtain ⟨k, s⟩ := e
    by_cases h : id = k
    · subst h
      simp
    · have hb : (id == k) = false := beq_false_of_ne h
      simpa [List.lookup_cons, hb] using ih

theorem isOpen_setSpace (alive : p.space? i = some s) (t : Space σ) (id : Nat) :
    (p.setSpace i t).isOpen id = if id = i then t.window.isSome else p.isOpen id := by
  rw [isOpen, space?_setSpace]
  by_cases h : id = i
  · subst h
    simp [alive]
  · simp [h, isOpen]

theorem call_eq (alive : p.space? i = some s) (d : Space.Command σ) :
    p.call i d = some ((s.step d).1,
      if s.window.isSome && (s.step d).2.window.isNone then
        (p.setSpace i (s.step d).2).deactivate i
      else p.setSpace i (s.step d).2) := by
  rw [call, alive]
  rfl

/-- Only shutting down takes host faults from a space. -/
theorem call_of_ne_shutdown (alive : p.space? i = some s) {d : Space.Command σ}
    (hd : d ≠ .shutdown) : p.call i d = some ((s.step d).1, p.setSpace i (s.step d).2) := by
  have hw := s.isSome_window_step hd
  rw [call_eq alive]
  cases hs : s.window <;> cases ht : (s.step d).2.window <;> simp_all

/-- Shutting down takes host faults from a space if they went there and it has its window. -/
theorem call_shutdown (alive : p.space? i = some s) :
    p.call i .shutdown = some ((s.step .shutdown).1,
      { p.setSpace i (s.step .shutdown).2 with
        route := if p.isOpen i = true ∧ p.route = some i then none else p.route }) := by
  have ho : p.isOpen i = s.window.isSome := by rw [isOpen, alive, Option.any_some]
  rw [call_eq alive, s.window_step_shutdown, ho, deactivate]
  cases s.window with
  | none => rfl
  | some w =>
    by_cases hr : p.route = some i <;> simp [hr, setSpace]

inductive RouteStep (p : Process σ) (c : Command σ) : Process σ → Prop where
  | idle (none_made : c.makes = false) (none_open : ∀ i, c.ended? = some i → p.isOpen i = false) :
      RouteStep p c p
  | made (s : Space σ) (made : c.makes = true) (window : s.window.isSome = c.opens) :
      RouteStep p c { spaces := (p.next, s) :: p.spaces, next := p.next + 1
                      route := if c.opens then some p.next else p.route }
  | called {i : Nat} {s : Space σ} (alive : p.space? i = some s) (t : Space σ)
      (window : t.window.isSome = s.window.isSome) (none_made : c.makes = false)
      (none_ended : c.ended? = none) : RouteStep p c (p.setSpace i t)
  | ended {i : Nat} (spaces : List (Nat × Space σ)) (none_made : c.makes = false)
      (ended : c.ended? = some i)
      (others : ∀ id, ({ p with spaces } : Process σ).isOpen id = (p.isOpen id && id != i)) :
      RouteStep p c
        { p with spaces, route := if p.isOpen i = true ∧ p.route = some i then none else p.route }

/-- A space is made, or the host refuses it. -/
theorem create_space (place : Placement) (settings : Settings) (level : Option Level)
    (routed : Bool) (kernel : Kernel) :
    (∃ s : Space σ, Space.create place settings level routed kernel = .ok s ∧
      Command.makes (.create place settings level kernel : Command σ) = true) ∨
    ∃ e, (Space.create place settings level routed kernel : Except _ (Space σ)) = .error e ∧
      Command.makes (.create place settings level kernel : Command σ) = false := by
  rw [Space.create, Command.makes]
  cases Arena.create place.arena settings.arenaSize kernel with
  | error e => exact .inr ⟨e, rfl, rfl⟩
  | ok arena =>
    simp only
    cases (if settings.window && !settings.cacheModel then kernel.windowRefusal else none) with
    | none => exact .inl ⟨_, rfl, rfl⟩
    | some e => exact .inr ⟨_, rfl, rfl⟩

/-- Making a space with a window takes the route over. -/
theorem routeStep_create (p : Process σ) (place : Placement) (settings : Settings)
    (level : Option Level) (kernel : Kernel) :
    RouteStep p (.create place settings level kernel)
      (p.step (.create place settings level kernel)) := by
  unfold step
  dsimp only
  rw [create]
  obtain ⟨s, hs, hm⟩ | ⟨e, hs, hm⟩ :=
    create_space (σ := σ) place settings level p.route.isSome kernel
  · obtain ⟨arena, journal, -, rfl⟩ := Space.create_eq_ok hs
    have ho : Command.opens (.create place settings level kernel : Command σ) =
        (settings.window && !settings.cacheModel) := by
      rw [Command.opens, hm, Bool.true_and]
    rw [hs]
    have hmade := RouteStep.made (p := p) (c := .create place settings level kernel)
      { settings, arena, journal
        window :=
          if settings.window && !settings.cacheModel then some (Window.create place.window kernel)
          else none } hm (by rw [ho]; split <;> simp_all)
    rw [ho] at hmade
    cases hw : settings.window && !settings.cacheModel <;> rw [hw] at hmade <;> exact hmade
  · rw [hs]
    exact .idle hm fun i hi => by cases hi

/-- Shutting a space down gives up the route to it, and no other. -/
theorem routeStep_shutdown (p : Process σ) (i : Nat) :
    RouteStep p (.call i .shutdown) (p.step (.call i .shutdown)) := by
  show RouteStep p _ (((p.call i .shutdown).map Prod.snd).getD p)
  cases hs : p.space? i with
  | none =>
    rw [call, hs]
    refine .idle rfl fun j hj => ?_
    cases hj
    rw [isOpen, hs]
    rfl
  | some s =>
    rw [call_shutdown hs]
    refine .ended _ rfl rfl fun id => ?_
    have ho := isOpen_setSpace hs (s.step .shutdown).2 id
    rw [s.window_step_shutdown] at ho
    refine ho.trans ?_
    by_cases h : id = i <;> simp [h]

/-- So does dropping it. -/
theorem routeStep_drop (p : Process σ) (i : Nat) : RouteStep p (.drop i) (p.step (.drop i)) := by
  show RouteStep p _ (((p.drop i).map Prod.snd).getD p)
  cases hs : p.space? i with
  | none =>
    rw [drop, call, hs]
    refine .idle rfl fun j hj => ?_
    cases hj
    rw [isOpen, hs]
    rfl
  | some s =>
    rw [drop, call_shutdown hs]
    refine .ended _ rfl rfl fun id => ?_
    have hl := Site.lookup_filter (· != i) (p.setSpace i (s.step .shutdown).2).spaces id
    rw [isOpen, space?]
    show (List.lookup id _).any _ = _
    rw [hl]
    have ho := isOpen_setSpace hs (s.step .shutdown).2 id
    by_cases h : id = i
    · simp [h]
    · have hb : (id != i) = true := bne_iff_ne.2 h
      rw [if_neg h] at ho
      rw [hb, if_pos rfl, Bool.and_true]
      exact ho

/-- What every event does. -/
theorem routeStep_step (p : Process σ) (c : Command σ) : RouteStep p c (p.step c) := by
  have hcall : ∀ i (d : Space.Command σ), d ≠ .shutdown → ∀ c : Command σ, c.makes = false →
      c.ended? = none → RouteStep p c (((p.call i d).map Prod.snd).getD p) := by
    intro i d hd c hm he
    cases hs : p.space? i with
    | none =>
      rw [call, hs]
      exact .idle hm fun j hj => by rw [he] at hj; cases hj
    | some s =>
      rw [call_of_ne_shutdown hs hd]
      exact .called hs _ (s.isSome_window_step hd) hm he
  cases c with
  | create place settings level kernel => exact p.routeStep_create place settings level kernel
  | call i d =>
    by_cases hd : d = .shutdown
    · subst hd
      exact p.routeStep_shutdown i
    · exact hcall i d hd _ rfl (Command.ended?_call hd)
  | drop i => exact p.routeStep_drop i
  | fault pc a =>
    show RouteStep p _ (((p.fault pc a).map Prod.snd).getD p)
    rw [fault]
    cases p.route with
    | none => exact .idle rfl fun j hj => by cases hj
    | some i => exact hcall i (.fault pc a) (by simp) _ rfl rfl

namespace RouteStep

theorem next_eq (h : RouteStep p c p') : p'.next = p.next + c.makes.toNat := by
  cases h with
  | idle none_made => rw [none_made]; rfl
  | made s made => rw [made]; rfl
  | called alive t window none_made => rw [none_made]; rfl
  | ended spaces none_made => rw [none_made]; rfl

/-- A space has its window from the event that makes it until the one that ends it. -/
theorem isOpen_iff (h : RouteStep p c p') (fresh : ∀ id, p.isOpen id = true → id < p.next)
    (id : Nat) : p'.isOpen id = true ↔
      (c.opens = true ∧ p.next = id) ∨ p.isOpen id = true ∧ c.ended? ≠ some id := by
  cases h with
  | idle none_made none_open =>
    rw [Command.opens_eq_false none_made]
    constructor
    · intro ho
      refine .inr ⟨ho, fun he => ?_⟩
      rw [none_open id he] at ho
      cases ho
    · rintro (⟨ho, -⟩ | ⟨ho, -⟩)
      · cases ho
      · exact ho
  | made s made window =>
    have hl : ({ p with spaces := (p.next, s) :: p.spaces } : Process σ).isOpen id =
        if id = p.next then c.opens else p.isOpen id := by
      rw [isOpen, space?, List.lookup_cons, ← window]
      by_cases h : id = p.next
      · simp [h]
      · have hb : (id == p.next) = false := beq_false_of_ne h
        simp [h, hb, isOpen, space?]
    refine (Bool.eq_iff_iff.1 hl).trans ?_
    rw [Command.ended?_of_makes made]
    by_cases h : id = p.next
    · have hn : ¬p.isOpen id = true := fun ho => absurd (fresh id ho) (by omega)
      simp [h, h ▸ hn]
    · simp [h, Ne.symm h]
  | called alive t window none_made none_ended =>
    rw [isOpen_setSpace alive, Command.opens_eq_false none_made, none_ended]
    split
    · rename_i h
      rw [window, h, isOpen, alive]
      simp
    · simp
  | ended spaces none_made ended others =>
    rename_i i
    have hne : id ≠ i ↔ some i ≠ some id := ne_comm.trans (not_congr Option.some_inj.symm)
    refine (Bool.eq_iff_iff.1 (others id)).trans ?_
    rw [Command.opens_eq_false none_made, ended, Bool.and_eq_true, bne_iff_ne, hne]
    simp

/-- Host faults go to a space from the event that opens it until the one that ends it or opens
another one. -/
theorem route_iff (h : RouteStep p c p') (routed : ∀ id, p.route = some id → p.isOpen id = true)
    (id : Nat) : p'.route = some id ↔ (c.opens = true ∧ p.next = id) ∨
      p.route = some id ∧ ¬(c.opens = true ∨ c.ended? = some id) := by
  cases h with
  | idle none_made none_open =>
    rw [Command.opens_eq_false none_made]
    constructor
    · intro hr
      refine .inr ⟨hr, ?_⟩
      rintro (ho | he)
      · cases ho
      · have ho := routed id hr
        rw [none_open id he] at ho
        cases ho
    · rintro (⟨ho, -⟩ | ⟨hr, -⟩)
      · cases ho
      · exact hr
  | made s made window =>
    rw [Command.ended?_of_makes made]
    cases c.opens <;> simp
  | called alive t window none_made none_ended =>
    rw [Command.opens_eq_false none_made, none_ended]
    simp [setSpace]
  | ended spaces none_made ended others =>
    rename_i i
    rw [Command.opens_eq_false none_made, ended]
    by_cases hr : p.route = some i
    · have ho := routed i hr
      simp [hr, ho]
    · simp only [hr, and_false, if_false]
      constructor
      · intro h
        refine .inr ⟨h, ?_⟩
        rintro (hf | he)
        · cases hf
        · exact hr (h.trans he.symm)
      · rintro (⟨hf, -⟩ | ⟨h, -⟩)
        · cases hf
        · exact h

end RouteStep

def after (cs : List (Command σ)) : Process σ := run {} cs

theorem after_concat (cs : List (Command σ)) (c : Command σ) :
    after (cs ++ [c]) = (after cs).step c :=
  List.foldl_concat _ _ _ _

theorem next_after (cs : List (Command σ)) : (after cs).next = cs.countP Command.makes := by
  induction cs using List.reverseRecOn with
  | nil => rfl
  | append_singleton cs c ih =>
    rw [after_concat, (routeStep_step _ c).next_eq, ih, List.countP_append, List.countP_singleton]
    cases c.makes <;> rfl

/-- Spaces are numbered in turn, and host faults go to one that has its window. -/
structure Sound (p : Process σ) : Prop where
  fresh : ∀ id, p.isOpen id = true → id < p.next
  routed : ∀ id, p.route = some id → p.isOpen id = true

/-- No event leaves the route with a space that has no window. -/
theorem Sound.step (h : p.Sound) (c : Command σ) : (p.step c).Sound := by
  have hs := p.routeStep_step c
  constructor
  · intro id ho
    rw [hs.next_eq]
    rcases (hs.isOpen_iff h.fresh id).1 ho with ⟨hc, rfl⟩ | ⟨ho, -⟩
    · rw [Command.makes_of_opens hc]
      exact Nat.lt_succ_self _
    · exact Nat.lt_of_lt_of_le (h.fresh id ho) (Nat.le_add_right _ _)
  · intro id hr
    refine (hs.isOpen_iff h.fresh id).2 ?_
    rcases (hs.route_iff h.routed id).1 hr with hc | ⟨hr, hn⟩
    · exact .inl hc
    · exact .inr ⟨h.routed id hr, fun he => hn (.inr he)⟩

theorem sound_after (cs : List (Command σ)) : (after cs).Sound := by
  induction cs using List.reverseRecOn with
  | nil => exact ⟨fun _ h => (by cases h), fun _ h => (by cases h)⟩
  | append_singleton cs c ih =>
    rw [after_concat]
    exact ih.step c

/-- The event makes a space with a window, and so many spaces have been made before it. -/
def Opens (id : Nat) (before : List (Command σ)) (c : Command σ) : Prop :=
  c.opens = true ∧ before.countP Command.makes = id

/-- The window of a space came up in a history, and the space was neither shut down nor dropped
since. -/
def KeepsWindow (cs : List (Command σ)) (id : Nat) : Prop :=
  Since (Opens id) (fun _ c => c.ended? = some id) cs

/-- The window that came up last in a history is that of the space, which was neither shut down nor
dropped since. -/
def KeepsLastWindow (cs : List (Command σ)) (id : Nat) : Prop :=
  Since (Opens id) (fun _ c => c.opens = true ∨ c.ended? = some id) cs

theorem isOpen_after (cs : List (Command σ)) (id : Nat) :
    (after cs).isOpen id = true ↔ KeepsWindow cs id := by
  refine iff_since (P := fun cs => (after cs).isOpen id = true) (fun h => by cases h)
    (fun cs c => ?_) cs
  rw [after_concat, (routeStep_step _ c).isOpen_iff (sound_after cs).fresh, next_after]
  rfl

theorem route_after (cs : List (Command σ)) (id : Nat) :
    (after cs).route = some id ↔ KeepsLastWindow cs id := by
  refine iff_since (P := fun cs => (after cs).route = some id) (fun h => by cases h)
    (fun cs c => ?_) cs
  rw [after_concat, (routeStep_step _ c).route_iff (sound_after cs).routed, next_after]
  rfl

section Word

variable (place : Nat → HostAddress)

/-- What an event does to a word that has the address of the space that host faults go to: a window
that comes up puts its own there, and one that is given up clears the word if it finds its own. -/
def exchange (p : Process σ) (word : Option HostAddress) (c : Command σ) : Option HostAddress :=
  if c.opens then some (place p.next)
  else
    match c.ended? with
    | some i => if p.isOpen i = true ∧ word = some (place i) then none else word
    | none => word

def word (cs : List (Command σ)) : Option HostAddress :=
  (cs.foldl (fun q c => (q.1.step c, exchange place q.1 q.2 c)) (({}, none) : Process σ × _)).2

/-- Spaces that have their windows at one time are at different addresses. -/
def Apart (p : Process σ) : Prop :=
  ∀ i < p.next, ∀ j < p.next, p.isOpen i = true → p.isOpen j = true → place i = place j → i = j

instance (p : Process σ) : Decidable (Apart place p) :=
  inferInstanceAs (Decidable (∀ i < _, ∀ j < _, _ → _ → _ → _))

theorem word_concat (cs : List (Command σ)) (c : Command σ) :
    word place (cs ++ [c]) = exchange place (after cs) (word place cs) c := by
  have hfst : ∀ cs : List (Command σ), (cs.foldl
      (fun q c => (q.1.step c, exchange place q.1 q.2 c)) (({}, none) : Process σ × _)).1 =
        after cs := by
    intro cs
    induction cs using List.reverseRecOn with
    | nil => rfl
    | append_singleton cs c ih => rw [List.foldl_concat, ih, after_concat]
  rw [word, List.foldl_concat, hfst, ← word]

variable {place}

/-- The word follows the route, as long as open spaces are at different addresses. -/
theorem RouteStep.exchange_eq (h : RouteStep p c p') (sound : p.Sound) (apart : Apart place p) :
    exchange place p (p.route.map place) c = p'.route.map place := by
  cases h with
  | idle none_made none_open =>
    rw [exchange, Command.opens_eq_false none_made]
    cases he : c.ended? with
    | none => rfl
    | some i => simp [none_open i he]
  | made s made window =>
    rw [exchange, Command.ended?_of_makes made]
    cases c.opens <;> rfl
  | called alive t window none_made none_ended =>
    rw [exchange, Command.opens_eq_false none_made, none_ended]
    rfl
  | ended spaces none_made ended others =>
    rename_i i
    have hi : (p.isOpen i = true ∧ p.route.map place = some (place i)) ↔
        p.isOpen i = true ∧ p.route = some i := by
      refine and_congr_right fun ho => ⟨fun hw => ?_, fun hr => by rw [hr]; rfl⟩
      obtain ⟨j, hj, hp⟩ := Option.map_eq_some_iff.1 hw
      have hjo := sound.routed j hj
      rw [hj, apart j (sound.fresh j hjo) i (sound.fresh i ho) hjo ho hp]
    rw [exchange, Command.opens_eq_false none_made, ended]
    simp only [Bool.false_eq_true, if_false, hi]
    split <;> rfl

/-- The word names the space that host faults go to, also where an address is used again. -/
theorem word_eq {cs : List (Command σ)}
    (apart : ∀ n ≤ cs.length, Apart place (after (cs.take n))) :
    word place cs = (after cs).route.map place := by
  induction cs using List.reverseRecOn with
  | nil => rfl
  | append_singleton cs c ih =>
    have hprefix : ∀ n ≤ cs.length, Apart place (after (cs.take n)) := by
      intro n hn
      have ha := apart n (by simp; omega)
      rwa [List.take_append_of_le_length hn] at ha
    have hcs := hprefix cs.length (Nat.le_refl _)
    rw [List.take_length] at hcs
    rw [word_concat, ih hprefix, after_concat]
    exact (routeStep_step _ c).exchange_eq (sound_after cs) hcs

end Word

/-- Where the host faults go after a history. -/
structure FollowsLatest (cs : List (Command σ)) : Prop where
  latest : ∀ id, (after cs).route = some id ↔ KeepsLastWindow cs id
  alive : ∀ id, (after cs).route = some id →
    ∃ s w, (after cs).space? id = some s ∧ s.window = some w
  alive_iff : ∀ id, (∃ s w, (after cs).space? id = some s ∧ s.window = some w) ↔
    KeepsWindow cs id
  /-- Unless a window comes up or that of the space itself is given up. -/
  stays : ∀ id c, (after cs).route = some id → c.opens = false → c.ended? ≠ some id →
    ((after cs).step c).route = some id
  /-- No fault finds its space missing. -/
  offered : ∀ pc a, ((after cs).fault pc a).isSome = (after cs).route.isSome
  word_eq : ∀ place, (∀ n ≤ cs.length, Apart place (after (cs.take n))) →
    word place cs = (after cs).route.map place

theorem isOpen_iff_exists (p : Process σ) (id : Nat) :
    p.isOpen id = true ↔ ∃ s w, p.space? id = some s ∧ s.window = some w := by
  rw [isOpen, Option.any_eq_true]
  constructor
  · rintro ⟨s, hs, hw⟩
    obtain ⟨w, hw⟩ := Option.isSome_iff_exists.1 hw
    exact ⟨s, w, hs, hw⟩
  · rintro ⟨s, w, hs, hw⟩
    exact ⟨s, hs, by rw [hw]; rfl⟩

/-- After every history, host faults go to the space whose window came up last, if it still has it,
and to none otherwise. -/
theorem route_follows_latest (cs : List (Command σ)) : FollowsLatest cs where
  latest := route_after cs
  alive id hr := (isOpen_iff_exists _ id).1 ((sound_after cs).routed id hr)
  alive_iff id := (isOpen_iff_exists _ id).symm.trans (isOpen_after cs id)
  stays id c hr ho he := by
    refine ((routeStep_step _ c).route_iff (sound_after cs).routed id).2 (.inr ⟨hr, ?_⟩)
    rintro (h | h)
    · rw [ho] at h
      cases h
    · exact he h
  offered pc a := by
    rw [fault]
    cases hr : (after cs).route with
    | none => rfl
    | some id =>
      obtain ⟨s, w, hs, -⟩ := (isOpen_iff_exists _ id).1 ((sound_after cs).routed id hr)
      show ((after cs).call id (.fault pc a)).isSome = true
      rw [call_eq hs]
      rfl
  word_eq _ apart := word_eq apart

def createWindow : Command Unit :=
  .create Space.anywhere { window := true, arenaSize := 0x1000 } none .linux

/-- The first of two spaces is dropped, a third one is made, and the second one is shut down. -/
def successive : List (Command Unit) :=
  [createWindow, createWindow, .drop 0, createWindow, .call 1 .shutdown]

/-- The third space is put where the first one was. -/
def reused (id : Nat) : HostAddress := if id = 1 then 0x2000 else 0x1000

/-- The third space has the address of the first one, and keeps its route. -/
theorem route_follows_latest_reused :
    (∀ n ≤ successive.length, Apart reused (after (successive.take n))) ∧ reused 0 = reused 2 ∧
      KeepsLastWindow successive 2 ∧ ¬KeepsWindow successive 1 ∧
        word reused successive = some 0x1000 ∧ (after (successive ++ [.drop 2])).route = none := by
  have apart : ∀ n ≤ successive.length, Apart reused (after (successive.take n)) := by
    decide +kernel
  have hroute : (after successive).route = some 2 := by decide +kernel
  have h := route_follows_latest successive
  refine ⟨apart, rfl, (h.latest 2).1 hroute, fun hk => ?_, ?_, by decide +kernel⟩
  · have hclosed : (after successive).isOpen 1 = false := by decide +kernel
    rw [(isOpen_iff_exists _ 1).2 ((h.alive_iff 1).2 hk)] at hclosed
    cases hclosed
  · rw [h.word_eq reused apart, hroute]
    rfl

end Process

end GuestMemory
