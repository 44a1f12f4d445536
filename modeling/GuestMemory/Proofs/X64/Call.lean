import GuestMemory.Proofs.X64.Entry

/-!
The call in a thunk. The stack is aligned, the address behind the call goes below the frame, and the
entry point has the bytes below that to itself. It makes the access, comes back, and the answer of a
load is brought into the data register; of the frame only the place for a value has changed.
-/
namespace GuestMemory.X64

variable {σ : Type} {host : Host} {t m : Machine σ} {s : Space σ} {d : Deferred}
  {lo back next : HostAddress} {n : Nat} {v : GuestAddress}

theorem Deferred.Passes.of_differs {y : Word d.access.width} {x : UInt64} {memory memory' : Memory}
    {i j : Nat} (h : d.Passes lo n y x memory) (hm : Memory.Differs lo i j memory memory')
    (hj : j ≤ n + 352) (hn : n + frameSize ≤ 2 ^ 64) : d.Passes lo n y x memory' := by
  have hf : frameSize = 384 := rfl
  refine ⟨h.1, fun hl => ?_⟩
  have h := h.2 hl
  split
  · rename_i hw
    rw [if_pos hw] at h
    rw [← h]
    exact hm.load (by rw [hw, Width.bytes_w128]; omega) (.inr hj)
  · rename_i hw
    rwa [if_neg hw] at h

/-- All is set for the call of the entry point that makes the access. -/
structure Ready (host : Host) (d : Deferred) (lo back : HostAddress) (m : Machine σ)
    (v : GuestAddress) (s : Space σ) (t : Machine σ) : Prop where
  framed : Framed d lo host.frame.length back m s t
  stack : ∃ k, t.gpr rsp = lo + UInt64.ofNat (k + 8) ∧ host.frame.length ≤ k ∧
    k + 8 ≤ d.vectorsAt host.frame.length
  aligned : t.gpr rsp % 16 = 0
  space : t.gpr rdi = host.entries.space
  address : t.gpr rsi = v.toUInt64
  passes : d.Passes lo host.frame.length (d.value m) (t.gpr rdx) t.space.memory
  entry : t.gpr rax = if d.access.isLoad then host.entries.read d.access.width
    else host.entries.write d.access.width

/-- The access has been made: a word of 128 bits that was loaded lies in its place, and below that
nothing has changed. -/
structure Served (d : Deferred) (lo : HostAddress) (n : Nat) (back : HostAddress) (m : Machine σ)
    (v : GuestAddress) (s : Space σ) (t c : Machine σ) : Prop where
  framed : Framed d lo n back m (d.perform m v s).2 c
  gpr : c.gpr = t.gpr
  placed : d.access.isLoad = true → d.access.width = .w128 →
    c.space.memory.load d.access.width (lo + UInt64.ofNat (n + 352)) = (d.perform m v s).1
  below : ∀ k, k + 8 ≤ n + 352 → c.space.memory.load .w64 (lo + UInt64.ofNat k) =
    t.space.memory.load .w64 (lo + UInt64.ofNat k)

namespace Machine

open Emitter

/-- The entry point at the address for a width loads a word of this width. -/
theorem serve_read {w : Width} (distinct : host.entries.Distinct) (hsi : t.gpr rsi = v.toUInt64)
    (hax : t.gpr rax = host.entries.read w) :
    t.serve host = (let (x, space) := t.space.read w v
      if w = .w128 then do
        let c ← ({ t with space } : Machine σ).store (t.gpr rdx) x
        return (host.gprLeft rax, c)
      else return (extend false x, { t with space })) := by
  have hr : allWidths.find? (host.entries.read · == t.gpr rax) = some w := by
    rw [hax]
    exact find?_allWidths distinct.read w
  rw [serve, hsi]
  simp only [hr, UInt32.toUInt32_toUInt64]

/-- The entry point at the address for a width stores a word of this width, from the place in `rdx`
if it has 128 bits. -/
theorem serve_write {w : Width} (distinct : host.entries.Distinct) (hsi : t.gpr rsi = v.toUInt64)
    (hax : t.gpr rax = host.entries.write w) :
    t.serve host = (if w = .w128 then t.load w (t.gpr rdx)
        else .ok ((t.gpr rdx).toBitVec.setWidth w.bits)).map fun x =>
      (host.gprLeft rax, { t with space := t.space.write v x }) := by
  have hr : allWidths.find? (host.entries.read · == t.gpr rax) = none := by
    rw [hax]
    exact List.find?_eq_none.2 fun w' _ => by simpa using distinct.read_ne_write w' w
  have hw : allWidths.find? (host.entries.write · == t.gpr rax) = some w := by
    rw [hax]
    exact find?_allWidths distinct.write w
  rw [serve, hsi]
  simp only [hr, hw, UInt32.toUInt32_toUInt64]
  by_cases h128 : w = .w128
  · simp only [if_pos h128]
    cases t.load w (t.gpr rdx) <;> rfl
  · simp only [if_neg h128]
    rfl

section

variable (apart : ∀ b, (b - lo).toNat < n + frameSize → ¬loads (s.touches (d.command m v)) b ∧
    ¬stores (s.touches (d.command m v)) b)
  (distinct : host.entries.Distinct) (framed : Framed d lo n back m s t)
  (hsi : t.gpr rsi = v.toUInt64)
  (passes : d.Passes lo n (d.value m) (t.gpr rdx) t.space.memory)

include apart distinct framed hsi passes

/-- The entry point of a load puts what it loads in its place or answers it. -/
theorem serve_of_load (hl : d.access.isLoad = true)
    (hax : t.gpr rax = host.entries.read d.access.width) :
    ∃ c, t.serve host = .ok (d.left host (d.perform m v s).1 rax, c) ∧
      Served d lo n back m v s t c := by
  have hf : frameSize = 384 := rfl
  have hfits := framed.room.fits
  obtain ⟨memory, hperform, hmade, hd⟩ := framed.perform apart
  have hbelow : ∀ k, k + 8 ≤ n + 352 → memory.load .w64 (lo + UInt64.ofNat k) =
      t.space.memory.load .w64 (lo + UInt64.ofNat k) := fun k hk =>
    hd.load (by rw [Width.bytes_w64]; omega) (.inl (by rw [Width.bytes_w64]; omega))
  rw [Deferred.perform_of_load m v t.space hl] at hperform
  rw [serve_read distinct hsi hax, hperform]
  by_cases hw : d.access.width = .w128
  · have hbytes : d.access.width.bytes = 16 := by rw [hw]; rfl
    obtain ⟨memory', hstore, hd', hslot⟩ := store_of_room (k := n + 352) hmade.room
      (by omega) (d.perform m v s).1
    rw [hbytes] at hd'
    simp only [if_pos hw, passes.1 hw, hstore]
    refine ⟨_, ?_, hmade.withMemory hd' (.inr ⟨Nat.le_refl _, Nat.le_refl _⟩), rfl,
      fun _ _ => hslot, fun k hk => ?_⟩
    · rw [Deferred.left, if_neg fun h => h.2.2 hw]
      rfl
    · exact (hd'.load (by rw [Width.bytes_w64]; omega) (.inl hk)).trans (hbelow k hk)
  · simp only [if_neg hw]
    refine ⟨_, ?_, hmade, rfl, fun _ h => absurd h hw, hbelow⟩
    rw [Deferred.left, if_pos ⟨rfl, hl, hw⟩]
    rfl

/-- The entry point of a store gets the value that it is to store. -/
theorem serve_of_store (hl : d.access.isLoad = false)
    (hax : t.gpr rax = host.entries.write d.access.width) :
    ∃ c, t.serve host = .ok (d.left host (d.perform m v s).1 rax, c) ∧
      Served d lo n back m v s t c := by
  have hf : frameSize = 384 := rfl
  have hfits := framed.room.fits
  obtain ⟨memory, hperform, hmade, hd⟩ := framed.perform apart
  rw [Deferred.perform_of_store m v t.space hl] at hperform
  have hvalue : (if d.access.width = .w128 then t.load d.access.width (t.gpr rdx)
      else .ok ((t.gpr rdx).toBitVec.setWidth d.access.width.bits)) = .ok (d.value m) := by
    have hpasses := passes.2 hl
    by_cases hw : d.access.width = .w128
    · rw [if_pos hw] at hpasses ⊢
      rw [passes.1 hw, load_of_room framed.room (by rw [hw, Width.bytes_w128]; omega), hpasses]
    · rw [if_neg hw] at hpasses ⊢
      rw [hpasses]
  have hspace : t.space.write v (d.value m) = { (d.perform m v s).2 with memory } :=
    congrArg Prod.snd hperform
  rw [serve_write distinct hsi hax, hvalue]
  refine ⟨{ t with space := t.space.write v (d.value m) }, ?_, ?_, rfl,
    fun h => absurd (hl.symm.trans h) nofun, fun k hk => ?_⟩
  · rw [Deferred.left, if_neg (by simp [hl])]
    rfl
  · rw [hspace]
    exact hmade
  · rw [hspace]
    exact hd.load (by rw [Width.bytes_w64]; omega) (.inl (by rw [Width.bytes_w64]; omega))

/-- The entry point makes the access of the dispatch path, with the frame in memory. -/
theorem serve_spec (hax : t.gpr rax = if d.access.isLoad then host.entries.read d.access.width
      else host.entries.write d.access.width) :
    ∃ c, t.serve host = .ok (d.left host (d.perform m v s).1 rax, c) ∧
      Served d lo n back m v s t c := by
  cases hl : d.access.isLoad with
  | true =>
    rw [hl] at hax
    exact serve_of_load apart distinct framed hsi passes hl hax
  | false =>
    rw [hl] at hax
    exact serve_of_store apart distinct framed hsi passes hl hax

end

/-- A function that runs on the stack below the frame leaves what lies above it. -/
theorem useStack_of_framed {k : Nat} (framed : Framed d lo host.frame.length back m s t)
    (hsp : t.gpr rsp = lo + UInt64.ofNat k) (hlow : host.frame.length ≤ k)
    (hk : k ≤ d.vectorsAt host.frame.length) :
    ∃ memory, t.useStack host = .ok (t.withMemory memory) ∧
      Framed d lo host.frame.length back m s (t.withMemory memory) ∧
      Memory.Differs lo 0 k t.space.memory memory := by
  have hf : frameSize = 384 := rfl
  obtain ⟨hg, hv, -⟩ := d.offsets host.frame.length
  obtain ⟨hstore, hd⟩ := storeBytes_of_room (k := k - host.frame.length) framed.room
    (show _ + host.frame.length ≤ _ by omega)
  rw [Nat.sub_add_cancel hlow] at hd
  refine ⟨_, ?_, framed.withMemory hd (.inl hk), hd.mono (Nat.zero_le _) (Nat.le_refl k)⟩
  rw [useStack, hsp, sub_ofNat lo hlow, hstore]

/-- The entry point has been entered: the address to return to lies on top of the stack, and all else
is as it was before the call. -/
structure Entered (host : Host) (d : Deferred) (lo back next : HostAddress) (k : Nat)
    (m : Machine σ) (v : GuestAddress) (s : Space σ) (t u : Machine σ) : Prop where
  framed : Framed d lo host.frame.length back m s u
  stack : u.gpr rsp = lo + UInt64.ofNat k
  gpr : ∀ r, r ≠ rsp → u.gpr r = t.gpr r
  passes : d.Passes lo host.frame.length (d.value m) (t.gpr rdx) u.space.memory
  next : u.space.memory.load .w64 (lo + UInt64.ofNat k) = gprWord next

theorem entered_of_push {k : Nat} (ready : Ready host d lo back m v s t)
    (hsp : t.gpr rsp = lo + UInt64.ofNat (k + 8)) (hk : k + 8 ≤ d.vectorsAt host.frame.length)
    (next : HostAddress) : ∃ u, t.push next = .ok u ∧ Entered host d lo back next k m v s t u := by
  have hf : frameSize = 384 := rfl
  obtain ⟨hg, hv, -⟩ := d.offsets host.frame.length
  obtain ⟨memory, hpush, hd, hnext⟩ := push_of_room ready.framed.room hsp (by omega) next
  refine ⟨_, hpush, (ready.framed.withMemory hd (.inl hk)).congr rfl, ?_, fun r hr => ?_,
    ready.passes.of_differs hd (by omega) ready.framed.room.fits, hnext⟩
  · rw [gpr_withMemory, gpr_setGpr_same]
  · rw [gpr_withMemory, gpr_setGpr_other _ _ hr]

section

variable (distinct : host.entries.Distinct)
  (apart : ∀ b, (b - lo).toNat < host.frame.length + frameSize →
    ¬loads (s.touches (d.command m v)) b ∧ ¬stores (s.touches (d.command m v)) b)
  (ready : Ready host d lo back m v s t)

include distinct apart ready

/-- Once entered, the entry point makes the access, passes its answer on and finds the way back,
whatever it does to the stack below. -/
theorem runEntry_of_entered {u : Machine σ} {k : Nat}
    (entered : Entered host d lo back next k m v s t u) (hlow : host.frame.length ≤ k)
    (hk : k + 8 ≤ d.vectorsAt host.frame.length) :
    ∃ c, u.runEntry host = .ok (next, c) ∧
      Framed d lo host.frame.length back m (d.perform m v s).2 c ∧
      (d.access.isLoad = true → d.Answers lo host.frame.length (d.perform m v s).1 c) ∧
      d.Returns host (d.perform m v s).1 t c := by
  have hf : frameSize = 384 := rfl
  obtain ⟨hg, hv, -⟩ := d.offsets host.frame.length
  have hfits := ready.framed.room.fits
  have hword : k + Width.w64.bytes ≤ 2 ^ 64 := by rw [Width.bytes_w64]; omega
  obtain ⟨m₁, huse₁, framed₁, hd₁⟩ := useStack_of_framed entered.framed entered.stack hlow
    (by omega)
  obtain ⟨c, hserve, served⟩ := serve_spec (t := u.withMemory m₁) apart distinct framed₁
    ((entered.gpr rsi (by decide)).trans ready.address)
    (by
      rw [gpr_withMemory, entered.gpr rdx (by decide)]
      exact entered.passes.of_differs hd₁ (by omega) hfits)
    ((entered.gpr rax (by decide)).trans ready.entry)
  have hsp : c.gpr rsp = lo + UInt64.ofNat k := by rw [served.gpr, gpr_withMemory, entered.stack]
  obtain ⟨m₂, huse₂, framed₂, hd₂⟩ := useStack_of_framed served.framed hsp hlow (by omega)
  have hnext : m₂.load .w64 (lo + UInt64.ofNat k) = gprWord next := calc
    m₂.load .w64 (lo + UInt64.ofNat k) = c.space.memory.load .w64 (lo + UInt64.ofNat k) :=
      hd₂.load hword (.inr (Nat.le_refl k))
    _ = m₁.load .w64 (lo + UInt64.ofNat k) := served.below k (by omega)
    _ = u.space.memory.load .w64 (lo + UInt64.ofNat k) := hd₁.load hword (.inr (Nat.le_refl k))
    _ = gprWord next := entered.next
  have hpop := pop_of_room framed₂.room (k := k) hsp (by omega)
  rw [memory_withMemory, hnext] at hpop
  refine ⟨((c.withMemory m₂).setGpr rsp (lo + UInt64.ofNat (k + 8))).called host
    (d.left host (d.perform m v s).1 rax), ?_, framed₂.congr rfl, fun hl => ?_,
    returns_called fun r hr => ?_⟩
  · rw [runEntry, huse₁]
    simp only [bind, Except.bind, hserve, huse₂, hpop]
    rfl
  · rw [Deferred.Answers]
    split
    · rename_i hw
      refine (hd₂.load ?_ (.inr (by omega))).trans (served.placed hl hw)
      rw [hw, Width.bytes_w128]
      omega
    · rename_i hw
      simp only [called, Deferred.left, hl, hw, ne_eq, not_false_eq_true, and_self, if_true]
  · rw [gpr_setGpr_other _ _ hr, gpr_withMemory, served.gpr, gpr_withMemory, entered.gpr r hr]

/-- The call makes the access and comes back with all that was saved still in the frame. -/
theorem callEntry_of_ready (next : HostAddress) :
    ∃ c, t.callEntry host next = .ok c ∧
      Framed d lo host.frame.length back m (d.perform m v s).2 c ∧
      (d.access.isLoad = true → d.Answers lo host.frame.length (d.perform m v s).1 c) ∧
      d.Returns host (d.perform m v s).1 t c := by
  obtain ⟨k, hsp, hlow, hk⟩ := ready.stack
  obtain ⟨u, hpush, entered⟩ := entered_of_push ready hsp hk next
  obtain ⟨c, hrun, hc⟩ := runEntry_of_entered distinct apart ready entered hlow hk
  refine ⟨c, ?_, hc⟩
  rw [callEntry, ready.aligned, ready.space]
  simp only [bne_self_eq_false, Bool.or_self, Bool.false_eq_true, if_false, hpush, hrun, bind,
    Except.bind, if_true]
  rfl

end

/-- The stack is aligned at most fifteen bytes below where it was. -/
theorem alignRsp_eq (a : UInt64) :
    a &&& 0xFFFFFFFFFFFFFFF0 = a - UInt64.ofNat (a.toNat % 16) := by
  have hlt := a.toNat_lt
  have hdiv : (a.toNat &&& 0xFFFFFFFFFFFFFFF0) / 2 ^ 4 = a.toNat / 2 ^ 4 := by
    rw [Nat.and_div_two_pow, show 0xFFFFFFFFFFFFFFF0 / 2 ^ 4 = 2 ^ 60 - 1 by decide,
      Nat.and_two_pow_sub_one_eq_mod, Nat.mod_eq_of_lt (by omega)]
  have hmod : (a.toNat &&& 0xFFFFFFFFFFFFFFF0) % 2 ^ 4 = 0 :=
    (Nat.and_mod_two_pow (n := 4)).trans (Nat.and_zero _)
  apply UInt64.toNat_inj.1
  rw [UInt64.toNat_and, UInt64.toNat_sub, UInt64.toNat_ofNat']
  change (a.toNat &&& 0xFFFFFFFFFFFFFFF0) = _
  omega

theorem alignRsp_mod (a : UInt64) : (a &&& 0xFFFFFFFFFFFFFFF0) % 16 = 0 := by
  apply UInt64.toNat_inj.1
  rw [UInt64.toNat_mod, UInt64.toNat_and]
  exact (Nat.and_mod_two_pow (n := 4)).trans (Nat.and_zero _)

/-- With the arguments set, the stack is aligned, whatever was saved, and there is room for the call
below it. -/
theorem runs_approach {e : Emitter} (hentries : e.entries = host.entries)
    (framed : Framed d lo host.frame.length back m s t)
    (hsp : t.gpr rsp = lo + UInt64.ofNat (d.vectorsAt host.frame.length))
    (hsi : t.gpr rsi = v.toUInt64)
    (passes : d.Passes lo host.frame.length (d.value m) (t.gpr rdx) t.space.memory) :
    ∃ u, t.runs (e.approach d) = .ok u ∧ Ready host d lo back m v s u ∧
      ∀ r, isCallerSaved r = false → r ≠ rsp → u.gpr r = t.gpr r := by
  obtain ⟨-, -, hlow⟩ := d.offsets host.frame.length
  generalize hentry : (if d.access.isLoad then host.entries.read d.access.width
    else host.entries.write d.access.width) = entry
  generalize hu : ((t.setGpr rdi host.entries.space).setGpr rsp
    (t.gpr rsp &&& 0xFFFFFFFFFFFFFFF0)).setGpr rax entry = u
  have hother : ∀ r, r ≠ rax → r ≠ rsp → r ≠ rdi → u.gpr r = t.gpr r := by
    intro r hax hsp hdi
    rw [← hu, gpr_setGpr_other _ _ hax, gpr_setGpr_other _ _ hsp, gpr_setGpr_other _ _ hdi]
  have hspace : u.space = t.space := by rw [← hu, space_setGpr, space_setGpr, space_setGpr]
  have hrsp : u.gpr rsp = t.gpr rsp &&& 0xFFFFFFFFFFFFFFF0 := by
    rw [← hu, gpr_setGpr_other _ _ (by decide), gpr_setGpr_same]
  refine ⟨u, ?_, ⟨framed.congr hspace, ?_, ?_, ?_, ?_, ?_, ?_⟩, fun r hr hsp =>
    hother r (callee_ne hr rfl) hsp (callee_ne hr rfl)⟩
  · rw [approach, hentries, hentry, ← hu,
      ← gpr_setGpr_other t host.entries.space (show rsp ≠ rdi by decide)]
    rfl
  · have hmod := Nat.mod_lt (t.gpr rsp).toNat (show 0 < 16 by decide)
    refine ⟨d.vectorsAt host.frame.length - (t.gpr rsp).toNat % 16 - 8, ?_, by omega, by omega⟩
    rw [Nat.sub_add_cancel (by omega), hrsp, alignRsp_eq, ← sub_ofNat lo (by omega), ← hsp]
  · rw [hrsp]
    exact alignRsp_mod _
  · rw [← hu, gpr_setGpr_other _ _ (by decide), gpr_setGpr_other _ _ (by decide), gpr_setGpr_same]
  · exact (hother rsi (by decide) (by decide) (by decide)).trans hsi
  · rwa [hother rdx (by decide) (by decide) (by decide), hspace]
  · rw [← hu, gpr_setGpr_same, hentry]

/-- What an entry point leaves goes to the data register. -/
theorem runs_result {x : Word d.access.width} (usable : d.Usable)
    (room : t.HasRoom lo (n + frameSize)) (hbp : t.gpr rbp = lo + UInt64.ofNat (n + 368))
    (answers : d.access.isLoad = true → d.Answers lo n x t) :
    t.runs (result d) = .ok (d.settle x t) := by
  have hlow : d.access.isLoad = true → d.access.width ≠ .w128 →
      (t.gpr rax).toBitVec.setWidth d.access.width.bits = x := by
    intro hl hw
    have ha := answers hl
    rw [Deferred.Answers, if_neg hw] at ha
    have hx : (t.gpr rax).toBitVec = x.setWidth 64 := congrArg UInt64.toBitVec ha
    rw [hx, BitVec.setWidth_setWidth_of_le _ (bits_le_of_ne hw), BitVec.setWidth_eq]
  generalize hcode : result d = code
  rw [result] at hcode
  split at hcode <;> rw [← hcode]
  · rename_i hl
    rw [Deferred.settle, if_neg (by simp [hl]), runs_nil]
  · rename_i hl hx
    rw [Deferred.settle, if_pos hl, if_neg (by simp [hx]),
      runs_cons (show t.step (.extendRax _ _ _) = .ok _ from rfl), runs_nil,
      hlow hl (usable.general hx)]
  · rename_i hl hx hw
    have ha := answers hl
    rw [Deferred.Answers, if_pos hw] at ha
    have hf : frameSize = 384 := rfl
    have hload : t.step (.vectorLoadRbp d.data (-scratchSize)) =
        .ok (t.setVector d.data (x.setWidth 128)) := by
      rw [step, near_offset hbp (k := n + 352) (by simp only [scratchSize]; omega),
        load_of_room (w := .w128) room (by rw [Width.bytes_w128]; omega), load_w128 hw ha]
      rfl
    rw [Deferred.settle, if_pos hl, if_pos hx, runs_cons hload, runs_nil]
  · rename_i hl hx hw
    rw [Deferred.settle, if_pos hl, if_pos hx,
      runs_cons (show t.step (.movToVector _ _) = .ok _ from rfl), runs_nil,
      hlow hl hw]

end Machine

end GuestMemory.X64
