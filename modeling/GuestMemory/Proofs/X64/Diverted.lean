import GuestMemory.Proofs.X64.Call
import GuestMemory.Proofs.X64.FastPath

/-!
A diverted site. The call in its place goes through the thunk and comes back with the registers that
are live as they were, and otherwise with what the access gives on the dispatch path; where the window
allows the access, with what its instruction gives.
-/
namespace GuestMemory.X64

variable {σ : Type} {host : Host} {m u : Machine σ} {e : Emitter} {d : Deferred}
  {lo back : HostAddress} {v : GuestAddress}

namespace Deferred

def LoadsGpr (d : Deferred) (r : Reg) : Prop :=
  d.access.isLoad = true ∧ d.access.isVector = false ∧ r = d.data

def LoadsVector (d : Deferred) (x : Reg) : Prop :=
  d.access.isLoad = true ∧ d.access.isVector = true ∧ x = d.data

/-- General registers that a called function keeps, or that are live. -/
def KeepsGpr (d : Deferred) (r : Reg) : Prop :=
  isCallerSaved r = false ∨ d.access.gprMask.toNat.testBit r = true

def KeepsVector (d : Deferred) (x : Reg) : Prop := d.access.vectorMask.toNat.testBit x = true

theorem gpr_settle_of_not {r : Reg} (h : ¬d.LoadsGpr r) (x : Word d.access.width) :
    (d.settle x m).gpr r = m.gpr r := by
  rw [settle]
  split
  · split
    · rfl
    · rename_i hl hx
      exact put_other _ _ fun he => h ⟨hl, by simpa using hx, he⟩
  · rfl

theorem vector_settle_of_not {r : Reg} (h : ¬d.LoadsVector r) (x : Word d.access.width) :
    (d.settle x m).vector r = m.vector r := by
  rw [settle]
  split
  · split
    · rename_i hl hx
      exact put_other _ _ fun he => h ⟨hl, hx, he⟩
    · rfl
  · rfl

theorem gpr_settle_of {r : Reg} (h : d.LoadsGpr r) (x : Word d.access.width) :
    (d.settle x m).gpr r = extend d.access.isSigned x := by
  obtain ⟨hl, hx, rfl⟩ := h
  rw [settle, if_pos hl, if_neg (by simp [hx])]
  exact put_same ..

theorem vector_settle_of {r : Reg} (h : d.LoadsVector r) (x : Word d.access.width) :
    (d.settle x m).vector r = x.setWidth 128 := by
  obtain ⟨hl, hx, rfl⟩ := h
  rw [settle, if_pos hl, if_pos hx]
  exact put_same ..

end Deferred

theorem mem_savedGprs_iff {r : Reg} : r ∈ Emitter.savedGprs d ↔
    isCallerSaved r = true ∧ d.access.gprMask.toNat.testBit r = true ∧ ¬d.LoadsGpr r := by
  simp only [Emitter.savedGprs, Deferred.LoadsGpr, List.mem_filter, List.mem_finRange, true_and,
    Bool.and_eq_true, Bool.not_eq_true', and_assoc]
  cases d.access.isLoad <;> cases d.access.isVector <;> simp

theorem mem_savedVectors_iff {x : Reg} : x ∈ Emitter.savedVectors d ↔
    d.KeepsVector x ∧ ¬d.LoadsVector x := by
  simp only [Emitter.savedVectors, Deferred.KeepsVector, Deferred.LoadsVector, List.mem_filter,
    List.mem_finRange, true_and, Bool.and_eq_true, Bool.not_eq_true']
  cases d.access.isLoad <;> cases d.access.isVector <;> simp

namespace Machine

open Emitter

/-- Two machines agree on what code after the access may use: the registers that are kept or loaded,
and the space but for the bytes from `lo` on that the access uses of the stack. -/
structure Agrees (host : Host) (d : Deferred) (lo : HostAddress) (t u : Machine σ) : Prop where
  gpr : ∀ r, d.KeepsGpr r ∨ d.LoadsGpr r → u.gpr r = t.gpr r
  vector : ∀ x, d.KeepsVector x ∨ d.LoadsVector x → u.vector x = t.vector x
  space : u.space = { t.space with memory := u.space.memory }
  memory : Memory.Differs lo 0 host.stackSize t.space.memory u.space.memory

def stackEnd (host : Host) (m : Machine σ) : HostAddress := m.gpr rsp - UInt64.ofNat host.stackSize

/-- The bytes below the stack pointer lie outside the window, and the guest access does not work on
them. -/
structure HasStack (host : Host) (m : Machine σ) (d : Deferred) (v : GuestAddress) : Prop where
  room : m.HasRoom (m.stackEnd host) host.stackSize
  apart : ∀ b, (b - m.stackEnd host).toNat < host.stackSize →
    ¬loads (m.space.touches (d.command m v)) b ∧ ¬stores (m.space.touches (d.command m v)) b

/-- Bytes below a run are none of it. -/
theorem not_lt_of_below {a b : HostAddress} {i n : Nat} (hb : (b - lo).toNat < i)
    (hi : lo.toNat + i ≤ a.toNat) (hn : a.toNat + n ≤ 2 ^ 64) : ¬(b - a).toNat < n := by
  have hblt := b.toNat_lt
  rw [UInt64.toNat_sub] at hb ⊢
  omega

/-- A stack below the window and below all that the access works on. -/
theorem hasStack_of_below {base : HostAddress} (hbase : m.space.windowBase? = some base)
    (below : (m.stackEnd host).toNat + host.stackSize ≤ base.toNat)
    (apart : ∀ t ∈ m.space.touches (d.command m v),
      (m.stackEnd host).toNat + host.stackSize ≤ t.start.toNat ∧
        t.start.toNat + t.size ≤ 2 ^ 64) :
    m.HasStack host d v := by
  obtain ⟨w, hw, rfl⟩ := Option.map_eq_some_iff.1 hbase
  have hout : ∀ b, (b - m.stackEnd host).toNat < host.stackSize →
      ∀ t ∈ m.space.touches (d.command m v), ¬t.Reaches b :=
    fun b hb t ht => not_lt_of_below hb (apart t ht).1 (apart t ht).2
  refine ⟨hasRoom_of_le hw below, fun b hb => ⟨?_, ?_⟩⟩
  · rintro ⟨t, ht, -, hr⟩
    exact hout b hb t ht hr
  · rintro ⟨t, ht, -, hr⟩
    exact hout b hb t ht hr

theorem gpr_rsp_eq (host : Host) (m : Machine σ) :
    m.gpr rsp = m.stackEnd host + UInt64.ofNat (host.frame.length + 376 + 8) := by
  have hsize : host.frame.length + 376 + 8 = host.stackSize := rfl
  rw [hsize, stackEnd, UInt64.sub_add_cancel]

theorem not_loadsGpr (usable : d.Usable) : ¬d.LoadsGpr rsp ∧ ¬d.LoadsGpr rbp :=
  ⟨fun h => (usable.data_ne h.2.1).1 h.2.2.symm, fun h => (usable.data_ne h.2.1).2 h.2.2.symm⟩

/-- The registers after the thunk: those that were saved are back, and a called function keeps the
others but for those that it may change. -/
theorem agrees_leave {c : Machine σ} (usable : d.Usable) (x : Word d.access.width)
    (framed : Framed d lo host.frame.length back m (d.perform m v m.space).2 c)
    (hcallee : ∀ r, isCallerSaved r = false → r ≠ rsp → r ≠ rbp → c.gpr r = m.gpr r) :
    Agrees host d lo (d.settle x { m with space := (d.perform m v m.space).2 })
      { d.settle x c with
        gpr := put (put (putAll (d.settle x c).gpr m.gpr (savedGprs d)) rbp (m.gpr rbp)) rsp
          (m.gpr rsp)
        vector := putAll (d.settle x c).vector m.vector (savedVectors d) } := by
  obtain ⟨hsp, hbp⟩ := not_loadsGpr usable
  constructor
  · intro r hr
    show put (put (putAll (d.settle x c).gpr m.gpr (savedGprs d)) rbp (m.gpr rbp)) rsp
      (m.gpr rsp) r = _
    by_cases hrsp : r = rsp
    · rw [hrsp, put_same, d.gpr_settle_of_not hsp]
    rw [put_other _ _ hrsp]
    by_cases hrbp : r = rbp
    · rw [hrbp, put_same, d.gpr_settle_of_not hbp]
    rw [put_other _ _ hrbp, putAll]
    by_cases hl : d.LoadsGpr r
    · rw [if_neg fun h => (mem_savedGprs_iff.1 h).2.2 hl, d.gpr_settle_of hl, d.gpr_settle_of hl]
    · rw [d.gpr_settle_of_not hl, d.gpr_settle_of_not hl]
      split
      · rfl
      -- a register that is live but has not been saved is one that the called function keeps
      · rename_i hs
        refine hcallee r (Bool.eq_false_iff.2 fun hcaller => ?_) hrsp hrbp
        have hmask := (hr.resolve_right hl).resolve_left (by simp [hcaller])
        exact hs (mem_savedGprs_iff.2 ⟨hcaller, hmask, hl⟩)
  · intro r hr
    show putAll (d.settle x c).vector m.vector (savedVectors d) r = _
    rw [putAll]
    by_cases hl : d.LoadsVector r
    · rw [if_neg fun h => (mem_savedVectors_iff.1 h).2 hl, d.vector_settle_of hl,
        d.vector_settle_of hl]
    · rw [if_pos (mem_savedVectors_iff.2 ⟨hr.resolve_right hl, hl⟩), d.vector_settle_of_not hl]
  · show (d.settle x c).space = _
    rw [d.space_settle, d.space_settle]
    exact framed.space
  · show Memory.Differs _ _ _ _ (d.settle x c).space.memory
    rw [d.space_settle, d.space_settle]
    exact framed.differs

/-- The thunk, up to its call. -/
theorem runs_before {memory : Memory} (hentries : e.entries = host.entries) (usable : d.Usable)
    (hv : m.gpr d.address = v.toUInt64) (room : m.HasRoom lo host.stackSize)
    (hdiffers : Memory.Differs lo (host.frame.length + 376) host.stackSize m.space.memory memory)
    (hback : memory.load .w64 (lo + UInt64.ofNat (host.frame.length + 376)) = gprWord back) :
    ∃ t, ((m.setGpr rsp (lo + UInt64.ofNat (host.frame.length + 376))).withMemory memory).runs
        (enter d ++ (arguments d ++ e.approach d)) = .ok t ∧
      Ready host d lo back m v m.space t ∧
      t.gpr rbp = lo + UInt64.ofNat (host.frame.length + 368) ∧
      ∀ r, isCallerSaved r = false → r ≠ rsp → r ≠ rbp → t.gpr r = m.gpr r := by
  obtain ⟨t, henter, framed, hsp, hbp, hgpr, hvector⟩ := framed_enter (d := d) room hdiffers hback
  have hvalue : d.value t = d.value m := by
    rw [Deferred.value, Deferred.value, hvector]
    cases hx : d.access.isVector with
    | true => rfl
    | false =>
      obtain ⟨hsp, hbp⟩ := usable.data_ne hx
      rw [hgpr _ hsp hbp]
  have hv : t.gpr d.address = v.toUInt64 :=
    (hgpr _ usable.address_ne_rsp usable.address_ne_rbp).trans hv
  obtain ⟨u, hargs, hframed, hsi, hpasses, hcallee⟩ := runs_arguments usable framed hsp hbp hv
  rw [hvalue] at hpasses
  obtain ⟨c, happroach, ready, hkept⟩ := runs_approach hentries hframed
    ((hcallee rsp rfl).trans hsp) hsi hpasses
  refine ⟨c, (runs_append henter _).trans ((runs_append hargs _).trans happroach), ready, ?_,
    fun r hr hsp hbp => ?_⟩
  · rw [hkept rbp rfl (by decide), hcallee rbp rfl, hbp]
  · rw [hkept r hr hsp, hcallee r hr, hgpr r hsp hbp]

/-- The thunk from its call on, with what the called function has left. -/
theorem runToReturn_after {c : Machine σ} {x : Word d.access.width} (usable : d.Usable)
    (framed : Framed d lo host.frame.length back m (d.perform m v m.space).2 c)
    (hbp : c.gpr rbp = lo + UInt64.ofNat (host.frame.length + 368))
    (answers : d.access.isLoad = true → d.Answers lo host.frame.length x c) (a : HostAddress)
    (rest : List Instruction) :
    c.runToReturn host a ((result d ++ leave d) ++ .ret :: rest) = .ok (back, { d.settle x c with
      gpr := put (put (putAll (d.settle x c).gpr m.gpr (savedGprs d)) rbp (m.gpr rbp)) rsp
        (lo + UInt64.ofNat (host.frame.length + 376 + 8))
      vector := putAll (d.settle x c).vector m.vector (savedVectors d) }) := by
  have hne : rsp ≠ rbp := by decide
  have hsettled := framed.congr (d.space_settle x c)
  have hbp' : (d.settle x c).gpr rbp = lo + UInt64.ofNat (host.frame.length + 368) := by
    rw [d.gpr_settle_of_not (not_loadsGpr usable).2, hbp]
  have hrun := (runs_append (runs_result usable framed.room hbp answers) _).trans
    (runs_leave hsettled.room hbp' hsettled.saved)
  generalize hu : Machine.mk _ _ _ = u at hrun
  have hspace : u.space = (d.settle x c).space := by rw [← hu]
  have hsp : u.gpr rsp = lo + UInt64.ofNat (host.frame.length + 376) := by
    rw [← hu]
    simp only [put_other _ _ hne, put_same]
  rw [runToReturn_append hrun, runToReturn, pop_of_room (hsettled.room.of_window (by rw [hspace]))
    hsp (Nat.le_refl _), hspace, hsettled.saved.back, setGpr, ← hu, put_put_put]
  rfl

/-- The thunk makes the access and returns. -/
theorem runToReturn_thunk {memory : Memory}
    (hentries : e.entries = host.entries) (distinct : host.entries.Distinct) (usable : d.Usable)
    (hv : m.gpr d.address = v.toUInt64) (stack : m.HasStack host d v)
    (hdiffers : Memory.Differs (m.stackEnd host) (host.frame.length + 376) host.stackSize
      m.space.memory memory)
    (hback : memory.load .w64 (m.stackEnd host + UInt64.ofNat (host.frame.length + 376)) =
      gprWord back) (thunk : HostAddress) (rest : List Instruction) :
    ∃ u, ((m.setGpr rsp (m.stackEnd host + UInt64.ofNat (host.frame.length + 376))).withMemory
        memory).runToReturn host thunk (e.thunk d ++ rest) = .ok (back, u) ∧
      Agrees host d (m.stackEnd host) (d.dispatch m v) u ∧
      ∀ r, ¬d.KeepsGpr r → ¬d.LoadsGpr r →
        u.gpr r = d.left host (d.perform m v m.space).1 r := by
  have hrsp := m.gpr_rsp_eq host
  generalize hlo : m.stackEnd host = lo at hdiffers hback hrsp ⊢
  obtain ⟨t, hbefore, ready, hbp, hgpr⟩ := runs_before (v := v) hentries usable hv
    (hlo ▸ stack.room) hdiffers hback
  obtain ⟨c, hcall, framed, answers, returns⟩ := callEntry_of_ready distinct (hlo ▸ stack.apart)
    ready (thunk + UInt64.ofNat (codeSize (enter d ++ (arguments d ++ e.approach d))) +
      UInt64.ofNat Instruction.callRax.size)
  refine ⟨_, ?_, agrees_leave usable (d.perform m v m.space).1 framed fun r hr hsp hbp =>
    (returns.kept r hr hsp).trans (hgpr r hr hsp hbp), fun r hk hl => ?_⟩
  · rw [thunk_eq, List.append_assoc, runToReturn_append hbefore, List.cons_append,
      runToReturn_callRax hcall, List.append_assoc (result d ++ leave d), List.singleton_append, hrsp]
    exact runToReturn_after usable framed ((returns.kept rbp rfl (by decide)).trans hbp) answers _ _
  · have hne : ∀ q, isCallerSaved q = false → r ≠ q := fun q hq he => hk (.inl (he ▸ hq))
    have hsaved : r ∉ savedGprs d := fun h => hk (.inr (mem_savedGprs_iff.1 h).2.1)
    have hcaller : isCallerSaved r = true := by simpa using fun h => hk (.inl h)
    simp only [put_other _ _ (hne rbp rfl), put_other _ _ (hne rsp rfl), putAll_other _ _ hsaved]
    rw [d.gpr_settle_of_not hl, returns.changed r hcaller]

/-- The distance in the call leads to the thunk. -/
theorem near_thunk {site thunk : HostAddress} {codeSize : UInt32} {distance : Int}
    (h : callDistance site codeSize thunk = .ok distance) :
    site + UInt64.ofNat callSize + UInt64.ofInt distance = thunk := by
  obtain ⟨-, hsum, -, -⟩ := callDistance_eq_ok_iff.1 h
  calc site + UInt64.ofNat callSize + UInt64.ofInt distance
      = UInt64.ofInt (site.toNat + callSize + distance) := by
        rw [UInt64.ofInt_add, UInt64.ofInt_add, ← ofNat_eq_ofInt, ← ofNat_eq_ofInt,
          UInt64.ofNat_toNat]
    _ = UInt64.ofNat thunk.toNat := by rw [hsum, ← ofNat_eq_ofInt]
    _ = thunk := UInt64.ofNat_toNat

/-- Running the site goes through its thunk and returns. Registers that a called function may change
and that are not live have what the entry point left in them. -/
theorem runSite_thunk {site thunk : HostAddress} {distance : Int} {after rest : List Instruction}
    (hentries : e.entries = host.entries) (distinct : host.entries.Distinct) (usable : d.Usable)
    (hv : m.gpr d.address = v.toUInt64)
    (reaches : callDistance site d.codeSize thunk = .ok distance)
    (patched : m.code.fetch? site = some (callPatch distance d.codeSize ++ after))
    (placed : m.code.fetch? thunk = some (e.thunk d ++ rest)) (stack : m.HasStack host d v) :
    ∃ u, m.runSite host site = .ok u ∧ Agrees host d (m.stackEnd host) (d.dispatch m v) u ∧
      ∀ r, ¬d.KeepsGpr r → ¬d.LoadsGpr r →
        u.gpr r = d.left host (d.perform m v m.space).1 r := by
  obtain ⟨memory, hpush, hdiffers, hback⟩ := push_of_room (k := host.frame.length + 376) stack.room
    (m.gpr_rsp_eq host) (Nat.le_refl _) (site + UInt64.ofNat callSize)
  obtain ⟨u, hrun, hagrees, hleft⟩ := runToReturn_thunk hentries distinct usable hv stack hdiffers
    hback thunk rest
  refine ⟨u, ?_, hagrees, hleft⟩
  rw [runSite, patched]
  simp only [callPatch, List.cons_append]
  rw [runCall, near_thunk reaches, placed]
  simp only [hpush, bind, Except.bind, hrun, if_true]
  rfl

/-- A diverted site does what the dispatch path does. -/
theorem runSite_call {site thunk : HostAddress} {distance : Int} {after rest : List Instruction}
    (hentries : e.entries = host.entries) (distinct : host.entries.Distinct) (usable : d.Usable)
    (hv : m.gpr d.address = v.toUInt64)
    (reaches : callDistance site d.codeSize thunk = .ok distance)
    (patched : m.code.fetch? site = some (callPatch distance d.codeSize ++ after))
    (placed : m.code.fetch? thunk = some (e.thunk d ++ rest)) (stack : m.HasStack host d v) :
    ∃ u, m.runSite host site = .ok u ∧ Agrees host d (m.stackEnd host) (d.dispatch m v) u := by
  obtain ⟨u, hrun, hagrees, -⟩ := runSite_thunk hentries distinct usable hv reaches patched placed
    stack
  exact ⟨u, hrun, hagrees⟩

theorem Agrees.withMemory {t : Machine σ} (h : Agrees host d lo t u) {memory : Memory}
    (hm : ∀ b, memory.byte b = t.space.memory.byte b) : Agrees host d lo (t.withMemory memory) u :=
  ⟨h.gpr, h.vector, h.space, fun b hb => (h.memory b hb).trans (hm b).symm⟩

end Machine

theorem Emitter.create?_eq_some {entries : Entries} {windowBase? : Option HostAddress} {base : Nat}
    (h : create? entries windowBase? base = some e) :
    e.entries = entries ∧ windowBase? = some e.windowBase := by
  rw [create?] at h
  split at h
  · split at h
    · cases h
    · obtain ⟨windowBase, hw, h⟩ := Option.bind_eq_some_iff.1 h
      cases h
      exact ⟨rfl, hw⟩
  · cases h

open Machine in
/-- Diverting a site is not seen. Whatever the operands and the live registers, the call in its place
comes back with what the guest access gives on the dispatch path, and where the window, in step with
the maps, shows all of its bytes under a protection that allows it, with what the instruction of the
site gives. Registers that a called function keeps or that are live come back as they were, but for
one that is loaded. In spaces that emitted code runs on the window is in step (`RunsCode.inStep`). -/
theorem diverted_agrees {base : Nat} {site thunk : HostAddress} {distance : Int}
    {after rest : List Instruction}
    (accepted : Emitter.create? host.entries m.space.windowBase? base = some e)
    (usable : e.operands? d.access = some (d.address, d.data))
    (distinct : host.entries.Distinct) (addressed : m.gpr d.address = v.toUInt64)
    (reaches : callDistance site d.codeSize thunk = .ok distance)
    (patched : m.code.fetch? site = some (callPatch distance d.codeSize ++ after))
    (placed : m.code.fetch? thunk = some (e.thunk d ++ rest)) (stack : m.HasStack host d v) :
    ∃ u, m.runSite host site = .ok u ∧ Agrees host d (m.stackEnd host) (d.dispatch m v) u ∧
      (m.space.InStep → m.space.settings.cacheModel = false → m.gpr e.base = e.windowBase →
        m.space.IsOpen (!d.access.isLoad) v d.access.width.bytes →
        v.toNat + d.access.width.bytes ≤ 2 ^ 32 →
        ∃ f, m.step (e.fastPath d.access d.address d.data) = .ok f ∧
          Agrees host d (m.stackEnd host) f u) ∧
      (∀ r, d.KeepsGpr r → ¬d.LoadsGpr r → u.gpr r = m.gpr r) ∧
      ∀ x, d.KeepsVector x → ¬d.LoadsVector x → u.vector x = m.vector x := by
  obtain ⟨hentries, hwindow⟩ := Emitter.create?_eq_some accepted
  obtain ⟨u, hrun, hagrees⟩ := runSite_call hentries distinct (usable_of_operands? usable) addressed
    reaches patched placed stack
  refine ⟨u, hrun, hagrees, fun inStep off hbase isOpen fits => ?_, fun r hk hl => ?_,
    fun x hk hl => ?_⟩
  · obtain ⟨memory, hstep, hsame⟩ := step_fastPath inStep off hwindow hbase addressed
      isOpen fits
    exact ⟨_, hstep, hagrees.withMemory hsame⟩
  · exact (hagrees.gpr r (.inl hk)).trans (d.gpr_settle_of_not hl _)
  · exact (hagrees.vector x (.inl hk)).trans (d.vector_settle_of_not hl _)

def entryPoints : Entries where
  space := 0x1000
  read w := 0x2000 + UInt64.ofNat w.rank
  write w := 0x3000 + UInt64.ofNat w.rank

theorem entryPoints_distinct : entryPoints.Distinct := by
  constructor
  · intro w w' h
    cases w <;> cases w' <;> first | rfl | exact absurd h (by decide)
  · intro w w' h
    cases w <;> cases w' <;> first | rfl | exact absurd h (by decide)
  · intro w w'
    cases w <;> cases w' <;> decide

/-- Called functions leave other values in all registers that they may change, and on the stack. -/
def callingHost : Host where
  entries := entryPoints
  gprLeft r := 0xBAD0 + r.val.toUInt64
  vectorLeft _ := 0xBAD
  frame := List.replicate 64 0xAD

def windowed : Emitter := ⟨entryPoints, Space.anywhere.window, Reg.ofNat 15, []⟩

/-- A signed load of 16 bits from the address in `rsi` to `rdx`; `rcx`, `rsi` and the first vector
register are live. -/
def halfLoad : Deferred where
  siteOffset := 0
  codeSize := 6
  access := ⟨0x80001000, .w16, true, true, false, 6, 2, 0x42, 1⟩
  address := rsi
  data := rdx

/-- The load has been diverted, in a space whose second page begins with a sign bit. -/
def divertedSpace : Space Unit :=
  ((Space.projected.step (.loadBytes 0x700000001000 [0x80])).2.placeCode 0x400000002000
    (windowed.thunk halfLoad)).placeCode 0x400000001000 (callPatch 0xFFB 6)

/-- The address in `rsi` is that of the last byte of the first page. -/
def halfway : Machine Unit where
  gpr r := if r = rsp then 0x500000001000 else if r = rsi then 0x1FFF
    else if r = Reg.ofNat 15 then 0x600000000000 else 0x100 + r.val.toUInt64
  vector x := BitVec.ofNat 128 x
  space := divertedSpace

theorem divertedSpace_runsCode : divertedSpace.RunsCode := by
  refine ⟨Space.made true false, Space.isFresh_made true false, ⟨by decide, by decide, ?_⟩,
    Space.granted_made true false, rfl, ?_⟩
  · intro w hw
    cases hw
    decide
  · have howns : Space.carved.arena.Owns ⟨0, 0x2000⟩ :=
      ⟨⟨"ram", 0, 0x2000, .readWrite⟩, .head _, rfl, rfl⟩
    have h₁ : Space.Proceeds (Space.made true false) Space.carved :=
      .inl ⟨.allocate "ram" 0x2000 .readWrite, trivial, rfl⟩
    have h₂ : Space.Proceeds Space.carved Space.projected :=
      .inl ⟨.projectBlock 0x1000 ⟨0, 0x2000⟩ 0x2000, howns, rfl⟩
    have h₃ : Space.Proceeds Space.projected
        (Space.projected.step (.loadBytes 0x700000001000 [0x80])).2 :=
      .inl ⟨.loadBytes 0x700000001000 [0x80], trivial, rfl⟩
    exact ((((Relation.ReflTransGen.single h₁).tail h₂).tail h₃).tail (.inr ⟨_, _, rfl⟩)).tail
      (.inr ⟨_, _, rfl⟩)

theorem halfway_hasStack : halfway.HasStack callingHost halfLoad 0x1FFF := by
  have htouches : halfway.space.touches (halfLoad.command halfway 0x1FFF) =
      [.direct false 0x1FFF 0x700000000FFF 1, .direct false 0x2000 0x700000001000 1] := rfl
  have hbase : halfway.space.windowBase? = some 0x600000000000 := rfl
  refine Machine.hasStack_of_below hbase (by decide) ?_
  rw [htouches]
  decide

theorem halfway_isOpen : halfway.space.IsOpen false 0x1FFF 2
  | 0, _ => ⟨_, ⟨0, .readWrite⟩, rfl, rfl, rfl⟩
  | 1, _ => ⟨_, ⟨0x1000, .readWrite⟩, rfl, rfl, rfl⟩

/-- The halfword is loaded from both pages and extended with its sign, and the live registers come
through. -/
theorem diverted_agrees_halfway :
    Emitter.create? callingHost.entries halfway.space.windowBase? 15 = some windowed ∧
      windowed.operands? halfLoad.access = some (halfLoad.address, halfLoad.data) ∧
      callingHost.entries.Distinct ∧
      halfway.gpr halfLoad.address = (0x1FFF : GuestAddress).toUInt64 ∧
      callDistance 0x400000001000 halfLoad.codeSize 0x400000002000 = .ok 0xFFB ∧
      halfway.code.fetch? 0x400000001000 = some (callPatch 0xFFB halfLoad.codeSize ++ []) ∧
      halfway.code.fetch? 0x400000002000 = some (windowed.thunk halfLoad ++ []) ∧
      halfway.HasStack callingHost halfLoad 0x1FFF ∧
      ∃ u f, halfway.runSite callingHost 0x400000001000 = .ok u ∧
        halfway.step (windowed.fastPath halfLoad.access rsi rdx) = .ok f ∧
        Machine.Agrees callingHost halfLoad (halfway.stackEnd callingHost) f u ∧
        u.gpr rdx = 0xFFFFFFFFFFFF8000 ∧ u.gpr rsi = 0x1FFF ∧ u.gpr (Reg.ofNat 1) = 0x101 ∧
        u.vector (Reg.ofNat 0) = 0 := by
  obtain ⟨inStep, off⟩ := divertedSpace_runsCode.inStep
  have accepted : Emitter.create? callingHost.entries halfway.space.windowBase? 15 =
      some windowed := rfl
  have usable : windowed.operands? halfLoad.access = some (halfLoad.address, halfLoad.data) := rfl
  have addressed : halfway.gpr halfLoad.address = (0x1FFF : GuestAddress).toUInt64 := rfl
  have reaches : callDistance 0x400000001000 halfLoad.codeSize 0x400000002000 = .ok 0xFFB := rfl
  have patched : halfway.code.fetch? 0x400000001000 =
      some (callPatch 0xFFB halfLoad.codeSize ++ []) := rfl
  have placed : halfway.code.fetch? 0x400000002000 = some (windowed.thunk halfLoad ++ []) := rfl
  obtain ⟨u, hrun, hagrees, hfast, hgpr, hvector⟩ := diverted_agrees accepted usable
    entryPoints_distinct addressed reaches patched placed halfway_hasStack
  obtain ⟨f, hstep, hf⟩ := hfast inStep off rfl halfway_isOpen (by decide)
  have hrsi : ¬halfLoad.LoadsGpr rsi := fun h => absurd h.2.2 (by decide)
  have hrcx : ¬halfLoad.LoadsGpr (Reg.ofNat 1) := fun h => absurd h.2.2 (by decide)
  have hvec : ¬halfLoad.LoadsVector (Reg.ofNat 0) := fun h => absurd h.2.1 (by decide)
  exact ⟨accepted, usable, entryPoints_distinct, addressed, reaches, patched, placed,
    halfway_hasStack, u, f, hrun, hstep, hf, hagrees.gpr rdx (.inr ⟨rfl, rfl, rfl⟩),
    hgpr rsi (.inr rfl) hrsi, hgpr _ (.inr rfl) hrcx, hvector _ rfl hvec⟩

end GuestMemory.X64
