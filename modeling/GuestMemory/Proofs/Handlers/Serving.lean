import GuestMemory.Proofs.Handlers.Composition
import GuestMemory.Proofs.Handlers.Named
import GuestMemory.Proofs.Handlers.Roster
import GuestMemory.Proofs.Maps.Addresses

/-!
What an access to the page of a handler does. The page that was projected last says which slot it is
and which physical address; the roster of the history says who is in the slot; and the access is one
callback of that handler and nothing else.
-/
namespace GuestMemory

namespace Device

variable {σ : Type} {dev : Device σ} {w : Width}

/-- A width that a device decodes is one call. -/
theorem read_native (h : dev.isNative w = true) (a : GuestAddress) (st : σ) :
    dev.read w a st = ((dev.onRead w a st).1, (dev.onRead w a st).2, [.read w a]) := by
  rw [read, readBytes_native h]
  simp only [Word.ofBytes_bytes]

theorem write_native (h : dev.isNative w = true) (a : GuestAddress) (x : Word w) (st : σ) :
    dev.write a x st = (dev.onWrite w a x st, [.write w a x.bytes]) := by
  rw [write, writeBytes_native h, Word.ofBytes_bytes]

end Device

namespace Handler

variable {σ : Type} {dev : Device σ} {w : Width}

theorem read_native (h : dev.isNative w = true) (a : GuestAddress) (st : σ) :
    (device dev st).read w a =
      ((dev.onRead w a st).1, .device dev (dev.onRead w a st).2, [.call (.read w a)]) := by
  simp only [read, Device.read_native h, List.map_cons, List.map_nil]

theorem write_native (h : dev.isNative w = true) (a : GuestAddress) (x : Word w) (st : σ) :
    (device dev st).write a x = (.device dev (dev.onWrite w a x st), [.call (.write w a x.bytes)]) := by
  simp only [write, Device.write_native h, List.map_cons, List.map_nil]

end Handler

theorem PhysicalMap.source?_eq_handler {map : PhysicalMap} {p : GuestAddress} {id : HandlerId} :
    map.source? p = some (.handler id) ↔ map.lookup p = some (.handler id) := by
  rw [source?]
  cases map.lookup p with
  | none => simp
  | some entry => cases entry <;> simp [PhysicalEntry.source]

namespace Space

variable {σ : Type} {s : Space σ} {v p : GuestAddress} {id : HandlerId}

/-- Calls that give the page of `v` another meaning if they are accepted. -/
def Command.Remaps (v : GuestAddress) : Command σ → Prop
  | .project start _ size | .projectBlock start _ size | .projectBuffer start _ size
  | .unmap start size => Covers start size v
  | .reset => True
  | _ => False

/-- Whatever would give the page of `v` another meaning is refused for its arguments. -/
def Untouched (v : GuestAddress) (s : Space σ) : List (Command σ) → Prop
  | [] => True
  | c :: cs => (c.Remaps v → ¬(s.step c).1.answer.IsAccepted) ∧ Untouched v (s.step c).2 cs

/-- In a history of calls the page of `v` was last mapped by a projection of the physical page `p`,
which was routed to slot `id` at that moment. -/
inductive LastProjected (s : Space σ) :
    List (Command σ) → GuestAddress → GuestAddress → HandlerId → Prop where
  | intro (before after : List (Command σ)) (start first : GuestAddress) (size : UInt32)
      (v : GuestAddress) (id : HandlerId) (covers : Covers start size v)
      (accepted : ((s.run before).2.step (.project start first size)).1.answer.IsAccepted)
      (routed : (Atlas.initial.follow s before).physical (first + (v.pageBase - start)) =
        some (.handler id))
      (untouched : Untouched v ((s.run before).2.step (.project start first size)).2 after) :
      LastProjected s (before ++ .project start first size :: after) v
        (first + (v.pageBase - start)) id

end Space

namespace Atlas

variable {σ : Type} {atlas : Atlas} {s : Space σ} {v p : GuestAddress} {id : HandlerId}

theorem follow_append (atlas : Atlas) (s : Space σ) (cs ds : List (Space.Command σ)) :
    atlas.follow s (cs ++ ds) = (atlas.follow s cs).follow (s.run cs).2 ds := by
  induction cs generalizing atlas s with
  | nil => rfl
  | cons c cs ih => exact ih _ (s.step c).2

theorem virtual_draw {c : Space.Command σ} (h : ¬c.Remaps v) (base : HostAddress) :
    (atlas.draw base c).virtual v = atlas.virtual v := by
  cases c with
  | project | projectBlock | projectBuffer | unmap => exact if_neg h
  | reset => exact absurd trivial h
  | _ => rfl

theorem virtual_record {c : Space.Command σ} {a : Space.Answer σ} (h : c.Remaps v → ¬a.IsAccepted)
    (base : HostAddress) : (atlas.record base c a).virtual v = atlas.virtual v := by
  by_cases ha : a.IsAccepted
  · rw [record_of_accepted ha, virtual_draw fun hr => h hr ha]
  · rw [record_of_not_accepted ha]

theorem virtual_follow {cs : List (Space.Command σ)} (h : s.Untouched v cs) :
    (atlas.follow s cs).virtual v = atlas.virtual v := by
  induction cs generalizing atlas s with
  | nil => rfl
  | cons c cs ih =>
    obtain ⟨hc, hcs⟩ := h
    rw [follow, ih hcs, virtual_record hc]

/-- The page of a handler leads to the slot, with the physical address of the access. -/
theorem virtual_of_lastProjected {calls : List (Space.Command σ)} (fresh : s.IsFresh)
    (hc : ∀ c ∈ calls, ¬c.IsInstall) (h : s.LastProjected calls v p id) :
    (initial.follow s calls).virtual v = .handler id (p ||| v.pageOffset) := by
  obtain ⟨before, after, start, first, size, v, id, covers, accepted, routed, untouched⟩ := h
  have hagrees := fresh.agrees.follow before fun c hb => hc c (by simp [hb])
  rw [follow_append, follow, virtual_follow untouched]
  have hstep := Space.mapStep_step (s := (s.run before).2) (c := .project start first size) not_false
  generalize ((s.run before).2.step (.project start first size)).1.answer = answer at accepted hstep
  generalize ((s.run before).2.step (.project start first size)).2.maps = m' at hstep
  cases hstep with
  | refused h => exact absurd accepted h
  | unrelated h => exact absurd trivial h
  | project h =>
    obtain ⟨hs, hf, -⟩ := VirtualMap.get_project h
    obtain ⟨hpage, hoffset, -⟩ := project_distance covers hs hf
    rw [hagrees.physical, PhysicalMap.source?_eq_handler] at routed
    have hsource : (initial.follow s before).physical (first + (v - start)) =
        some (.handler id) := by
      rw [hagrees.physical, PhysicalMap.source?_eq_handler,
        PhysicalMap.lookup_of_page_eq _ hpage, routed]
    have haligned : (first + (v.pageBase - start)).toNat % 4096 = 0 := by
      rw [UInt32.toNat_add, UInt32.toNat_sub, GuestAddress.toNat_pageBase]
      omega
    rw [GuestAddress.or_pageOffset haligned hpage hoffset]
    rw [record_of_accepted accepted]
    simp only [draw, redraw, if_pos covers, hsource, Source.reach]

end Atlas

namespace Space

variable {σ : Type} {s : Space σ} {v : GuestAddress} {id : HandlerId}

/-- An access at `v` is one callback of a handler in a slot, at address `q`: besides the slot only the
journal changes. A device that decodes the width is called once, and the slot has the state that it
leaves. -/
structure AnswersAt (s : Space σ) (v : GuestAddress) (id : HandlerId) (q : GuestAddress)
    (h : Handler σ) : Prop where
  read : ∀ w, s.read w v = ((h.read w q).1,
    { s with
      handlers := s.handlers.put id (h.read w q).2.1
      journal := s.journal.addAll ((h.read w q).2.2.map (.handler id)) })
  write : ∀ {w} (x : Word w), s.write v x =
    { s with
      handlers := s.handlers.put id (h.write q x).1
      journal := s.journal.addAll ((h.write q x).2.map (.handler id)) }
  native_read : ∀ dev st w, h = .device dev st → dev.isNative w = true →
    (s.read w v).1 = (dev.onRead w q st).1 ∧
      (s.read w v).2.handlers.get? id = some (.device dev (dev.onRead w q st).2) ∧
      (s.read w v).2.journal.events = s.journal.events.push (.handler id (.call (.read w q)))
  native_write : ∀ dev st w (x : Word w), h = .device dev st → dev.isNative w = true →
    (s.write v x).handlers.get? id = some (.device dev (dev.onWrite w q x st)) ∧
      (s.write v x).journal.events =
        s.journal.events.push (.handler id (.call (.write w q x.bytes)))

/-- A page that leads to a slot in use is answered by the handler in it. -/
theorem answersAt {q : GuestAddress} {h : Handler σ} (hv : s.virtual.resolve v = .handler id q)
    (hg : s.handlers.get? id = some h) : s.AnswersAt v id q h := by
  have hread : ∀ w, s.read w v = ((h.read w q).1,
      { s with
        handlers := s.handlers.put id (h.read w q).2.1
        journal := s.journal.addAll ((h.read w q).2.2.map (.handler id)) }) := by
    intro w
    simp only [Space.read, hv, readHandler, HandlerTable.read, hg]
    rfl
  have hwrite : ∀ {w} (x : Word w), s.write v x =
      { s with
        handlers := s.handlers.put id (h.write q x).1
        journal := s.journal.addAll ((h.write q x).2.map (.handler id)) } := by
    intro w x
    simp only [Space.write, hv, writeHandler, HandlerTable.write, hg]
    rfl
  have hslot : ∀ new, (s.handlers.put id new).get? id = some new := by
    intro new
    rw [HandlerTable.get?_put (HandlerTable.contains_iff.2 ⟨h, hg⟩), if_pos rfl]
  refine ⟨hread, hwrite, fun dev st w hd hn => ?_, fun dev st w x hd hn => ?_⟩
  · rw [hread, hd, Handler.read_native hn]
    exact ⟨rfl, hslot _, rfl⟩
  · rw [hwrite, hd, Handler.write_native hn]
    exact ⟨hslot _, rfl⟩

/-- The states in which an access consults the maps: where it begins, and where it has dealt with some
of its bytes. -/
inductive Passes (s : Space σ) : Space σ → Prop where
  | read (v : GuestAddress) (n : Nat) : Passes s (s.readBytes v n).2
  | write (v : GuestAddress) (bs : List UInt8) : Passes s (s.writeBytes v bs)

theorem Named.of_evolves {t : Space σ} (h : s.Named) (hm : t.maps = s.maps)
    (he : s.handlers.Evolves t.handlers) : t.Named := by
  have hcontains : ∀ id, t.handlers.contains id = s.handlers.contains id := by
    intro id
    rw [HandlerTable.contains, HandlerTable.contains, he.size_eq]
  refine ⟨(hcontains _).trans h.initial, ?_⟩
  rw [hm]
  exact h.names.mono fun id hid => (hcontains id).trans hid

theorem Named.passes {t : Space σ} (h : s.Named) (ht : s.Passes t) : t.Named := by
  cases ht with
  | read v n => exact h.of_evolves (maps_of_wiring (s.wiring_readBytes v n)) (s.evolves_readBytes v n)
  | write v bs =>
    exact h.of_evolves (maps_of_wiring (s.wiring_writeBytes v bs)) (s.evolves_writeBytes v bs)

theorem IsFresh.handlers_eq (h : s.IsFresh) : s.handlers = {} := by
  obtain ⟨place, settings, level, routed, kernel, hc⟩ := h
  obtain ⟨arena, journal, -, rfl⟩ := create_eq_ok hc
  rfl

/-- After a history a slot has what the history put there last, as accesses have left it. -/
theorem IsFresh.placed {s₀ : Space σ} (fresh : s₀.IsFresh) {calls : List (Command σ)}
    (hc : ∀ c ∈ calls, ¬c.IsInstall) {h : Handler σ}
    (hg : (s₀.run calls).2.handlers.get? id = some h) :
    ∃ placed, Roster.initial.follow s₀ calls id = some placed ∧ placed.Evolves h ∧
      ((∀ c ∈ calls, ¬c.IsAccess) → h = placed) := by
  have hstart : ∀ R : Handler σ → Handler σ → Prop, (∀ h, R h h) →
      Roster.Lists R Roster.initial s₀.handlers := by
    intro R refl
    rw [fresh.handlers_eq]
    exact Roster.lists_initial refl
  have hlists := Roster.lists_follow (hstart _ fun _ => .refl) calls hc id
  rw [hg] at hlists
  cases hr : Roster.initial.follow s₀ calls id with
  | none =>
    rw [hr] at hlists
    cases hlists
  | some placed =>
    rw [hr] at hlists
    cases hlists with
    | some he =>
      refine ⟨placed, rfl, he, fun ha => ?_⟩
      have heq := Roster.lists_follow_eq (hstart _ fun _ => rfl) calls hc ha id
      rw [hr, hg] at heq
      cases heq with
      | some he => exact he.symm

/-- Slots are handed out in order, and the next one is what registering answers. -/
theorem IsFresh.handedOut {s₀ : Space σ} (fresh : s₀.IsFresh) {calls : List (Command σ)}
    (hc : ∀ c ∈ calls, ¬c.IsInstall) :
    (s₀.handedOut calls).map Fin.val = List.range' 1 (s₀.handedOut calls).length ∧
      ∀ h, ((s₀.run calls).2.step (.register h)).1.answer =
        if free : (s₀.handedOut calls).length + 1 < maxHandlers then
          .slot ⟨(s₀.handedOut calls).length + 1, free⟩
        else .refused (.map .handlerPoolExhausted) := by
  obtain ⟨hmap, hsize⟩ := s₀.handedOut_eq calls hc
  have hone : s₀.handlers.slots.size = 1 := by
    rw [fresh.handlers_eq]
    rfl
  rw [hone] at hmap hsize
  refine ⟨hmap, fun h => ?_⟩
  have hn : (s₀.run calls).2.drained.handlers.slots.size = (s₀.handedOut calls).length + 1 := by
    rw [Nat.add_comm]
    exact hsize
  show ((s₀.run calls).2.drained.perform (.register h)).1 = _
  rw [perform_register]
  by_cases free : (s₀.handedOut calls).length + 1 < maxHandlers
  · rw [dif_pos free, dif_pos (hn ▸ free)]
    exact congrArg Answer.slot (Fin.ext hn)
  · rw [dif_neg free, dif_neg (hn ▸ free)]

/-- Handlers over a history of any calls but installing. An access to a page that was last projected
from a page of a slot is one callback of the handler that was put last into that slot, which nothing
but accesses has changed; slots are handed out once each and in order while there are free ones; and
no access, nor any byte of one, ever finds its slot empty. -/
theorem handlers_exact {s₀ : Space σ} (fresh : s₀.IsFresh) (calls : List (Command σ))
    (hc : ∀ c ∈ calls, ¬c.IsInstall) :
    (∀ v p id, s₀.LastProjected calls v p id → ∃ placed h,
      Roster.initial.follow s₀ calls id = some placed ∧ placed.Evolves h ∧
        ((∀ c ∈ calls, ¬c.IsAccess) → h = placed) ∧
          (s₀.run calls).2.AnswersAt v id (p ||| v.pageOffset) h) ∧
    ((s₀.handedOut calls).map Fin.val = List.range' 1 (s₀.handedOut calls).length ∧
      ∀ h, ((s₀.run calls).2.step (.register h)).1.answer =
        if free : (s₀.handedOut calls).length + 1 < maxHandlers then
          .slot ⟨(s₀.handedOut calls).length + 1, free⟩
        else .refused (.map .handlerPoolExhausted)) ∧
    ∀ t, (s₀.run calls).2.Passes t → ∀ v id q, t.virtual.resolve v = .handler id q →
      t.handlers.contains id = true := by
  have hleads : Leads (fun _ _ => True) s₀ (s₀.run calls).2 := leads_run fun _ _ _ => trivial
  have hnamed : (s₀.run calls).2.Named := hleads.keeps fresh.named fun _ c ht _ => ht.step c
  refine ⟨fun v p id hl => ?_, fresh.handedOut hc, fun t ht => (hnamed.passes ht).names.virtual⟩
  have hv := Atlas.virtual_of_lastProjected fresh hc hl
  rw [(fresh.agrees.follow calls hc).virtual] at hv
  obtain ⟨h, hg⟩ := HandlerTable.contains_iff.1 (hnamed.names.virtual v id _ hv)
  obtain ⟨placed, hr, he, heq⟩ := fresh.placed hc hg
  exact ⟨placed, h, hr, he, heq, answersAt hv hg⟩

def echo : Device Unit where
  decodes w := w == .w32
  onRead _ a st := (BitVec.ofNat _ a.toNat, st)
  onWrite _ _ _ st := st

def firstSlot : HandlerId := ⟨1, by decide⟩

/-- A slot is mapped and projected, and only then given to the device. -/
def beforeTakeover : List (Command Unit) :=
  [.register .null, .mapHandler firstSlot 0x10003000 0x1000,
    .project 0x10003000 0x10003000 0x1000]

def takeover : List (Command Unit) :=
  beforeTakeover ++
    .project 0xB0003000 0x10003000 0x1000 :: [.reassign firstSlot (.device echo ())]

/-- The device that took the slot over answers at the page that was projected before. -/
theorem handlers_exact_takeover :
    (made true false).IsFresh ∧ (∀ c ∈ takeover, ¬c.IsInstall) ∧
      (made true false).LastProjected takeover 0xB0003040 0x10003000 firstSlot ∧
        (((made true false).run takeover).2.read .w32 0xB0003040).1 = 0x10003040 := by
  have hc : ∀ c ∈ takeover, ¬c.IsInstall := by simp [takeover, beforeTakeover, Command.IsInstall]
  have ha : ∀ c ∈ takeover, ¬c.IsAccess := by simp [takeover, beforeTakeover, Command.IsAccess]
  have hl : (made true false).LastProjected takeover 0xB0003040 0x10003000 firstSlot := by
    have hu : ∀ t : Space Unit, t.Untouched 0xB0003040 [.reassign firstSlot (.device echo ())] :=
      fun _ => ⟨False.elim, trivial⟩
    exact .intro beforeTakeover [.reassign firstSlot (.device echo ())] 0xB0003000 0x10003000 0x1000
      0xB0003040 firstSlot (by decide) trivial (by decide +kernel) (hu _)
  obtain ⟨placed, h, hr, -, heq, hans⟩ :=
    (handlers_exact (isFresh_made true false) takeover hc).1 _ _ _ hl
  obtain rfl : Handler.device echo () = placed := Option.some.inj hr
  exact ⟨isFresh_made true false, hc, hl, (hans.native_read _ _ .w32 (heq ha) rfl).1⟩

end Space

end GuestMemory
