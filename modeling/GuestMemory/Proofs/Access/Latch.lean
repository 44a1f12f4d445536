import GuestMemory.Proofs.Access.Faults

/-!
Which exceptions an access raises. A byte whose page faults has one exception. An access that starts
in memory is carried out byte by byte where it leaves its page, and raises the exceptions of its bytes
in their order; any other access raises that of its first byte, if it has one. What a space keeps of
exceptions changes by exactly these, one after the other.
-/
namespace GuestMemory

def Resolved.exception? (v : GuestAddress) (isStore : Bool) : Resolved → Option GuestException
  | .tlbMiss => some (.tlbMiss v isStore)
  | .busError p => some (.busError p isStore)
  | _ => none

theorem Resolved.isSome_exception? (v : GuestAddress) (isStore : Bool) (r : Resolved) :
    (r.exception? v isStore).isSome = true ↔ r.IsFault := by
  cases r <;> simp [exception?, IsFault]

def Event.exception? : Event → Option GuestException
  | guestFault e => some e
  | _ => none

namespace Journal

def keepsExceptions (j : Journal) : Bool := j.level.any fun limit => Level.warn.rank ≤ limit.rank

def exceptions (j : Journal) : List GuestException := j.events.toList.filterMap Event.exception?

variable (j : Journal)

theorem keepsExceptions_add (e : Event) : (j.add e).keepsExceptions = j.keepsExceptions := by
  rw [add]
  split <;> rfl

theorem exceptions_add_guestFault (e : GuestException) :
    (j.add (.guestFault e)).exceptions =
      if j.keepsExceptions then j.exceptions ++ [e] else j.exceptions := by
  have hkeeps : j.keeps (.guestFault e) = j.keepsExceptions := by
    rw [keeps, keepsExceptions]
    cases j.level <;> rfl
  rw [add, hkeeps]
  split
  · rw [exceptions, Array.toList_push, List.filterMap_append]
    rfl
  · rfl

/-- What handlers report is something else. -/
theorem exceptions_addAll_handler (id : HandlerId) (acts : List HandlerAct) :
    (j.addAll (acts.map (.handler id))).keepsExceptions = j.keepsExceptions ∧
      (j.addAll (acts.map (.handler id))).exceptions = j.exceptions := by
  induction acts generalizing j with
  | nil => exact ⟨rfl, rfl⟩
  | cons act acts ih =>
    obtain ⟨hkeeps, hexceptions⟩ := ih (j.add (.handler id act))
    refine ⟨hkeeps.trans (j.keepsExceptions_add _), hexceptions.trans ?_⟩
    rw [add]
    split
    · rw [exceptions, Array.toList_push, List.filterMap_append]
      exact List.append_nil _
    · rfl

end Journal

/-- What a space keeps of exceptions. -/
structure Latch where
  /-- The one that waits. -/
  pending : Option GuestException
  /-- How many are still reported, if any are. -/
  budget : Nat
  reports : Bool
  /-- Whether the journal keeps what is reported. -/
  kept : Bool
  /-- Those in the journal. -/
  reported : List GuestException

namespace Latch

def raise (l : Latch) (e : GuestException) : Latch :=
  let l := { l with pending := l.pending.or (some e) }
  if l.reports && 0 < l.budget then
    { l with
      budget := l.budget - 1
      reported := if l.kept then l.reported ++ [e] else l.reported }
  else l

def raiseAll (l : Latch) (es : List GuestException) : Latch := es.foldl raise l

variable (l : Latch)

theorem pending_raise (e : GuestException) : (l.raise e).pending = l.pending.or (some e) := by
  rw [raise]
  split <;> rfl

theorem raiseAll_append (es es' : List GuestException) :
    l.raiseAll (es ++ es') = (l.raiseAll es).raiseAll es' :=
  List.foldl_append

/-- The first one is kept, unless one waits already. -/
theorem pending_raiseAll (es : List GuestException) :
    (l.raiseAll es).pending = l.pending.or es.head? := by
  induction es generalizing l with
  | nil => exact (Option.or_none).symm
  | cons e es ih =>
    refine (ih (l.raise e)).trans ?_
    rw [pending_raise, List.head?_cons]
    cases l.pending <;> rfl

end Latch

namespace Space

variable {σ : Type} {s : Space σ} {w : Width} {v : GuestAddress}

def latch (s : Space σ) : Latch where
  pending := s.pending
  budget := s.faultBudget
  reports := s.settings.logFaults
  kept := s.journal.keepsExceptions
  reported := s.journal.exceptions

/-- A space raises an exception as its latch does. -/
theorem latch_raise (s : Space σ) (e : GuestException) : (s.raise e).latch = s.latch.raise e := by
  have hif : (s.latch.reports && decide (0 < s.latch.budget)) =
      (s.settings.logFaults && decide (0 < s.faultBudget)) := rfl
  rw [raise, Latch.raise]
  simp only [hif]
  split
  · simp only [latch, Journal.exceptions_add_guestFault, Journal.keepsExceptions_add]
    rfl
  · rfl

theorem latch_readHandler (s : Space σ) (id : HandlerId) (w : Width) (a : GuestAddress) :
    (s.readHandler id w a).2.latch = s.latch := by
  obtain ⟨hkeeps, hexceptions⟩ :=
    s.journal.exceptions_addAll_handler id (s.handlers.read id w a).2.2
  simp only [latch, readHandler, hkeeps, hexceptions]

theorem latch_writeHandler (s : Space σ) (id : HandlerId) (a : GuestAddress) (x : Word w) :
    (s.writeHandler id a x).latch = s.latch := by
  obtain ⟨hkeeps, hexceptions⟩ := s.journal.exceptions_addAll_handler id (s.handlers.write id a x).2
  simp only [latch, writeHandler, hkeeps, hexceptions]

/-- The exception of a byte whose page faults. -/
def fault? (s : Space σ) (v : GuestAddress) (isStore : Bool) : Option GuestException :=
  (s.virtual.resolve v).exception? v isStore

def byteFaults (s : Space σ) (v : GuestAddress) (isStore : Bool) (n : Nat) : List GuestException :=
  (List.range n).filterMap fun i => s.fault? (v + UInt32.ofNat i) isStore

/-- Exceptions of an access: those of its bytes if it starts in memory, and otherwise that of its
first byte. -/
def faults (s : Space σ) (w : Width) (v : GuestAddress) (isStore : Bool) : List GuestException :=
  match s.virtual.resolve v with
  | .host _ => s.byteFaults v isStore w.bytes
  | _ => (s.fault? v isStore).toList

theorem fault?_eq_none_iff {isStore : Bool} :
    s.fault? v isStore = none ↔ ¬(s.virtual.resolve v).IsFault := by
  rw [← Resolved.isSome_exception? v isStore, fault?, Option.not_isSome_iff_eq_none]

theorem fault?_of_virtual {t : Space σ} (h : t.virtual = s.virtual) (v : GuestAddress)
    (isStore : Bool) : t.fault? v isStore = s.fault? v isStore := by
  rw [fault?, fault?, h]

theorem byteFaults_of_virtual {t : Space σ} (h : t.virtual = s.virtual) (v : GuestAddress)
    (isStore : Bool) (n : Nat) : t.byteFaults v isStore n = s.byteFaults v isStore n := by
  simp only [byteFaults, fault?_of_virtual h]

/-- The exception of the first byte comes before those of the others. -/
theorem byteFaults_succ (s : Space σ) (v : GuestAddress) (isStore : Bool) (n : Nat) :
    s.byteFaults v isStore (n + 1) =
      (s.fault? v isStore).toList ++ s.byteFaults (v + 1) isStore n := by
  rw [byteFaults, byteFaults, List.range_succ_eq_map, List.filterMap_cons, add_ofNat_zero,
    List.filterMap_map]
  have hrest : (fun i => s.fault? (v + UInt32.ofNat i) isStore) ∘ Nat.succ =
      fun i => s.fault? (v + 1 + UInt32.ofNat i) isStore := by
    funext i
    rw [Function.comp_apply, add_one_add]
  rw [hrest]
  cases s.fault? v isStore <;> rfl

/-- Loading a byte raises the exception of its page, if that faults. -/
theorem latch_readByte (s : Space σ) (v : GuestAddress) :
    (s.readByte v).2.latch = s.latch.raiseAll (s.fault? v false).toList := by
  rw [readByte, fault?]
  cases s.virtual.resolve v with
  | host a =>
    simp only
    split <;> rfl
  | handler id p => exact s.latch_readHandler id .w8 p
  | tlbMiss => exact s.latch_raise (.tlbMiss v false)
  | busError p => exact s.latch_raise (.busError p false)

/-- So does storing it. -/
theorem latch_writeByte (s : Space σ) (v : GuestAddress) (x : Word .w8) :
    (s.writeByte v x).latch = s.latch.raiseAll (s.fault? v true).toList := by
  rw [writeByte, fault?]
  cases s.virtual.resolve v with
  | host a =>
    simp only
    split <;> rfl
  | handler id p => exact s.latch_writeHandler id p x
  | tlbMiss => exact s.latch_raise (.tlbMiss v true)
  | busError p => exact s.latch_raise (.busError p true)

/-- Bytes that are loaded raise their exceptions in their order. -/
theorem latch_readBytes (s : Space σ) (v : GuestAddress) (n : Nat) :
    (s.readBytes v n).2.latch = s.latch.raiseAll (s.byteFaults v false n) := by
  induction n generalizing s v with
  | zero => rfl
  | succ n ih =>
    have hv : (s.readByte v).2.virtual = s.virtual :=
      congrArg Wiring.virtual (s.wiring_readByte v)
    refine (ih (s.readByte v).2 (v + 1)).trans ?_
    rw [latch_readByte, byteFaults_of_virtual hv, byteFaults_succ, Latch.raiseAll_append]

theorem latch_writeBytes (s : Space σ) (v : GuestAddress) (bs : List UInt8) :
    (s.writeBytes v bs).latch = s.latch.raiseAll (s.byteFaults v true bs.length) := by
  induction bs generalizing s v with
  | nil => rfl
  | cons b bs ih =>
    have hv : (s.writeByte v (Word.ofBytes .w8 [b])).virtual = s.virtual :=
      congrArg Wiring.virtual (s.wiring_writeByte v _)
    refine (ih (s.writeByte v (Word.ofBytes .w8 [b])) (v + 1)).trans ?_
    rw [latch_writeByte, byteFaults_of_virtual hv, List.length_cons, byteFaults_succ,
      Latch.raiseAll_append]

section

variable {a : HostAddress} (ha : s.virtual.resolve v = .host a)

include ha

theorem faults_of_host (isStore : Bool) : s.faults w v isStore = s.byteFaults v isStore w.bytes := by
  rw [faults, ha]

/-- Bytes of a page of memory have no exceptions. -/
theorem fault?_of_host {i : Nat} (hi : v.toNat % 4096 + i < 4096) (isStore : Bool) :
    s.fault? (v + UInt32.ofNat i) isStore = none := by
  obtain ⟨b, hb⟩ : ∃ b, s.virtual.resolve (v + UInt32.ofNat i) = .host b :=
    ⟨_, VirtualMap.resolve_add ha hi⟩
  rw [fault?, hb]
  rfl

/-- An access within a page of memory raises nothing. -/
theorem byteFaults_of_not_straddles (hs : straddles v w = false) (isStore : Bool) :
    s.byteFaults v isStore w.bytes = [] := by
  rw [straddles, decide_eq_false_iff_not, GuestAddress.toNat_pageOffset, pageSize] at hs
  refine List.filterMap_eq_nil_iff.2 fun i hi => fault?_of_host ha ?_ isStore
  have := List.mem_range.1 hi
  omega

/-- The first exception of an access that leaves a page of memory is that of the first byte of the
next page. -/
theorem head?_byteFaults_of_straddles (hs : straddles v w = true) (isStore : Bool) :
    (s.byteFaults v isStore w.bytes).head? = s.fault? (v.pageBase + 0x1000) isStore := by
  rw [straddles, decide_eq_true_eq, GuestAddress.toNat_pageOffset, pageSize] at hs
  have hw := w.bytes_le
  have hnext : v + UInt32.ofNat (4096 - v.toNat % 4096) = v.pageBase + 0x1000 := by
    have hpage : (0x1000 : UInt32).toNat = 4096 := rfl
    rw [← UInt32.toNat_inj, UInt32.toNat_add, UInt32.toNat_add, UInt32.toNat_ofNat',
      GuestAddress.toNat_pageBase, hpage]
    omega
  obtain ⟨n, hn⟩ : ∃ n, w.bytes = 4096 - v.toNat % 4096 + (n + 1) :=
    ⟨w.bytes - (4096 - v.toNat % 4096) - 1, by omega⟩
  have hbefore : (List.range (4096 - v.toNat % 4096)).findSome?
      (fun i => s.fault? (v + UInt32.ofNat i) isStore) = none := by
    refine List.findSome?_eq_none_iff.2 fun i hi => fault?_of_host ha ?_ isStore
    have := List.mem_range.1 hi
    omega
  rw [byteFaults, List.head?_filterMap, hn, List.range_add, List.findSome?_append, hbefore,
    Option.none_or, List.range_succ_eq_map, List.map_cons, List.findSome?_cons, Nat.add_zero, hnext]
  cases hf : s.fault? (v.pageBase + 0x1000) isStore with
  | some e => rfl
  | none =>
    -- the other bytes are on the page of this one
    refine List.findSome?_eq_none_iff.2 fun i hi => ?_
    obtain ⟨j, hj, rfl⟩ := List.mem_map.1 hi
    obtain ⟨k, hk, rfl⟩ := List.mem_map.1 hj
    have hk' := List.mem_range.1 hk
    rw [fault?_eq_none_iff] at hf ⊢
    rwa [s.virtual.isFault_congr (page_add_of_ge (i := 4096 - v.toNat % 4096 + k.succ)
      (j := 4096 - v.toNat % 4096) (by omega) (by omega) (by omega) (by omega)), hnext]

end

/-- A load raises its exceptions, and does nothing else to the latch. -/
theorem latch_read (s : Space σ) (w : Width) (v : GuestAddress) :
    (s.read w v).2.latch = s.latch.raiseAll (s.faults w v false) := by
  rw [read, faults]
  cases hr : s.virtual.resolve v with
  | host a =>
    simp only
    split
    · exact s.latch_readBytes v w.bytes
    · rename_i hs
      have hnone := byteFaults_of_not_straddles hr (Bool.eq_false_iff.2 hs) false
      split
      · split
        · rw [hnone]
          rfl
        · exact s.latch_readBytes v w.bytes
      · rw [hnone]
        rfl
  | handler id p =>
    rw [fault?, hr]
    exact s.latch_readHandler id w p
  | tlbMiss =>
    rw [fault?, hr]
    exact s.latch_raise (.tlbMiss v false)
  | busError p =>
    rw [fault?, hr]
    exact s.latch_raise (.busError p false)

/-- So does a store. -/
theorem latch_write (s : Space σ) (v : GuestAddress) (x : Word w) :
    (s.write v x).latch = s.latch.raiseAll (s.faults w v true) := by
  have hbytes := s.latch_writeBytes v x.bytes
  rw [Word.length_bytes] at hbytes
  rw [write, faults]
  cases hr : s.virtual.resolve v with
  | host a =>
    simp only
    split
    · exact hbytes
    · rename_i hs
      have hnone := byteFaults_of_not_straddles hr (Bool.eq_false_iff.2 hs) true
      split
      · split
        · rw [hnone]
          rfl
        · exact hbytes
      · rw [hnone]
        rfl
  | handler id p =>
    rw [fault?, hr]
    exact s.latch_writeHandler id p x
  | tlbMiss =>
    rw [fault?, hr]
    exact s.latch_raise (.tlbMiss v true)
  | busError p =>
    rw [fault?, hr]
    exact s.latch_raise (.busError p true)

end Space

end GuestMemory
