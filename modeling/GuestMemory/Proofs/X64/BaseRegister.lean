import GuestMemory.Proofs.X64.Diverted

/-!
The register that holds the window's base. All accesses of a block need it, so it is live
throughout; but a thunk saves what the access calls live, and not the base as such. It comes through
a diverted site when a called function keeps it or the access names it, and is lost otherwise.
-/
namespace GuestMemory.X64

variable {σ : Type} {host : Host} {m : Machine σ} {e : Emitter} {d : Deferred} {v : GuestAddress}

theorem general?_ne_base {n : UInt8} {r : Reg} (h : e.general? n = some r) : r ≠ e.base := by
  rw [Emitter.general?] at h
  split at h
  · split at h
    · cases h
    · rename_i hn
      obtain rfl := Option.some.inj h
      rw [not_or, not_or] at hn
      exact fun he => hn.2.2 (congrArg Fin.val he)
  · cases h

/-- The emitter takes no access that loads into the base. -/
theorem not_loadsGpr_base (h : e.operands? d.access = some (d.address, d.data)) :
    ¬d.LoadsGpr e.base := by
  rintro ⟨-, hx, hbase⟩
  rw [Emitter.operands?, Option.bind_eq_bind, Option.bind_eq_some_iff] at h
  obtain ⟨address, -, h⟩ := h
  rw [if_neg (by simp [hx]), Option.bind_eq_some_iff] at h
  obtain ⟨data, hdata, h⟩ := h
  split at h
  · cases h
  · split at h
    · cases h
    · obtain ⟨-, rfl⟩ := Prod.mk.inj (Option.some.inj h)
      exact general?_ne_base hdata hbase.symm

open Machine in
/-- After a diverted site the base is that of the window if a called function keeps its register or
the access calls it live, and the window is where it was. Otherwise the register has what the entry
point has left there. -/
theorem base_after_thunk {base : Nat} {site thunk : HostAddress} {distance : Int}
    {after rest : List Instruction}
    (accepted : Emitter.create? host.entries m.space.windowBase? base = some e)
    (usable : e.operands? d.access = some (d.address, d.data))
    (distinct : host.entries.Distinct) (addressed : m.gpr d.address = v.toUInt64)
    (reaches : callDistance site d.codeSize thunk = .ok distance)
    (patched : m.code.fetch? site = some (callPatch distance d.codeSize ++ after))
    (placed : m.code.fetch? thunk = some (e.thunk d ++ rest)) (stack : m.HasStack host d v)
    (based : m.gpr e.base = e.windowBase) :
    ∃ u, m.runSite host site = .ok u ∧ u.space.windowBase? = some e.windowBase ∧
      (d.KeepsGpr e.base → u.gpr e.base = e.windowBase) ∧
      (¬d.KeepsGpr e.base → u.gpr e.base = d.left host (d.perform m v m.space).1 e.base) := by
  obtain ⟨hentries, hwindow⟩ := Emitter.create?_eq_some accepted
  obtain ⟨u, hrun, hagrees, hleft⟩ := runSite_thunk hentries distinct (usable_of_operands? usable)
    addressed reaches patched placed stack
  have hloads := not_loadsGpr_base usable
  refine ⟨u, hrun, ?_, fun hk => ?_, fun hk => hleft _ hk hloads⟩
  · rw [hagrees.space, ← hwindow]
    show (d.dispatch m v).space.window.map Window.base = _
    rw [Deferred.dispatch, Deferred.space_settle]
    exact congrArg (Option.map Window.base) (d.window_perform m v m.space)
  · exact (hagrees.gpr _ (.inl hk)).trans ((d.gpr_settle_of_not hloads _).trans based)

/-- The base is in `rcx`, which called functions may change. -/
def basedOnRcx : Emitter := ⟨entryPoints, Space.anywhere.window, Reg.ofNat 1, []⟩

def loadLive (live : UInt32) : Deferred :=
  { halfLoad with access := { halfLoad.access with gprMask := live } }

/-- That load has been diverted, and is about to be run. -/
def beforeLoad (live : UInt32) : Machine Unit where
  gpr r := if r = rsp then 0x500000001000 else if r = rsi then 0x1FFF
    else if r = Reg.ofNat 1 then 0x600000000000 else 0x100 + r.val.toUInt64
  vector x := BitVec.ofNat 128 x
  space := (Space.projected.placeCode 0x400000002000 (basedOnRcx.thunk (loadLive live))).placeCode
    0x400000001000 (callPatch 0xFFB 6)

theorem beforeLoad_hasStack (live : UInt32) :
    (beforeLoad live).HasStack callingHost (loadLive live) 0x1FFF := by
  have htouches :
      (beforeLoad live).space.touches ((loadLive live).command (beforeLoad live) 0x1FFF) =
        [.direct false 0x1FFF 0x700000000FFF 1, .direct false 0x2000 0x700000001000 1] := rfl
  have hend : (beforeLoad live).stackEnd callingHost =
      0x500000001000 - UInt64.ofNat callingHost.stackSize := rfl
  have hbase : (beforeLoad live).space.windowBase? = some 0x600000000000 := rfl
  refine Machine.hasStack_of_below hbase (by rw [hend]; decide) ?_
  rw [htouches, hend]
  decide

/-- The base is live, and comes through. -/
theorem base_after_thunk_live :
    Emitter.create? callingHost.entries (beforeLoad 0x42).space.windowBase? 1 = some basedOnRcx ∧
      basedOnRcx.operands? (loadLive 0x42).access =
        some ((loadLive 0x42).address, (loadLive 0x42).data) ∧
      callingHost.entries.Distinct ∧
      (beforeLoad 0x42).gpr (loadLive 0x42).address = (0x1FFF : GuestAddress).toUInt64 ∧
      callDistance 0x400000001000 (loadLive 0x42).codeSize 0x400000002000 = .ok 0xFFB ∧
      (beforeLoad 0x42).code.fetch? 0x400000001000 =
        some (callPatch 0xFFB (loadLive 0x42).codeSize ++ []) ∧
      (beforeLoad 0x42).code.fetch? 0x400000002000 =
        some (basedOnRcx.thunk (loadLive 0x42) ++ []) ∧
      (beforeLoad 0x42).HasStack callingHost (loadLive 0x42) 0x1FFF ∧
      (beforeLoad 0x42).gpr basedOnRcx.base = basedOnRcx.windowBase ∧
      ∃ u, (beforeLoad 0x42).runSite callingHost 0x400000001000 = .ok u ∧
        u.gpr basedOnRcx.base = basedOnRcx.windowBase := by
  have accepted : Emitter.create? callingHost.entries (beforeLoad 0x42).space.windowBase? 1 =
      some basedOnRcx := rfl
  have usable : basedOnRcx.operands? (loadLive 0x42).access =
      some ((loadLive 0x42).address, (loadLive 0x42).data) := rfl
  have patched : (beforeLoad 0x42).code.fetch? 0x400000001000 =
      some (callPatch 0xFFB (loadLive 0x42).codeSize ++ []) := rfl
  have placed : (beforeLoad 0x42).code.fetch? 0x400000002000 =
      some (basedOnRcx.thunk (loadLive 0x42) ++ []) := rfl
  have stack := beforeLoad_hasStack 0x42
  obtain ⟨u, hrun, -, hlive, -⟩ := base_after_thunk accepted usable entryPoints_distinct rfl rfl
    patched placed stack rfl
  exact ⟨accepted, usable, entryPoints_distinct, rfl, rfl, patched, placed, stack, rfl, u, hrun,
    hlive (.inr rfl)⟩

/-- Where only the address is called live, the called function leaves something else in the base, and
all later accesses of the block go wrong. -/
theorem base_lost :
    Emitter.create? callingHost.entries (beforeLoad 0x40).space.windowBase? 1 = some basedOnRcx ∧
      basedOnRcx.operands? (loadLive 0x40).access =
        some ((loadLive 0x40).address, (loadLive 0x40).data) ∧
      (beforeLoad 0x40).gpr basedOnRcx.base = basedOnRcx.windowBase ∧
      ∃ u, (beforeLoad 0x40).runSite callingHost 0x400000001000 = .ok u ∧
        u.gpr basedOnRcx.base ≠ basedOnRcx.windowBase := by
  have usable : basedOnRcx.operands? (loadLive 0x40).access =
      some ((loadLive 0x40).address, (loadLive 0x40).data) := rfl
  have patched : (beforeLoad 0x40).code.fetch? 0x400000001000 =
      some (callPatch 0xFFB (loadLive 0x40).codeSize ++ []) := rfl
  have placed : (beforeLoad 0x40).code.fetch? 0x400000002000 =
      some (basedOnRcx.thunk (loadLive 0x40) ++ []) := rfl
  have dead : ¬(loadLive 0x40).KeepsGpr basedOnRcx.base := by
    rintro (h | h) <;> exact absurd h (by decide)
  have entries : basedOnRcx.entries = callingHost.entries := rfl
  obtain ⟨u, hrun, -, hleft⟩ := Machine.runSite_thunk entries entryPoints_distinct
    (usable_of_operands? usable) rfl rfl patched placed (beforeLoad_hasStack 0x40)
  refine ⟨rfl, usable, rfl, u, hrun, ?_⟩
  rw [hleft _ dead (not_loadsGpr_base usable)]
  decide

end GuestMemory.X64
