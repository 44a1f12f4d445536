import GuestMemory.Proofs.Access.Bytewise
import GuestMemory.Proofs.Space.History
import Mathlib.Tactic.ByContra

/-!
Accesses that raise an exception. Which bytes fault is decided by their pages, and an access of one
page faults as a whole; but one that starts in memory and runs into a page that faults has done its
first bytes by then. So an access that raises does what its bytes before the fault do, and no more.
-/
namespace GuestMemory

def Resolved.IsFault : Resolved → Prop
  | .tlbMiss | .busError _ => True
  | _ => False

namespace VirtualMap

/-- Bytes of one page fault together. -/
theorem isFault_congr (map : VirtualMap) {u v : GuestAddress} (h : u.page = v.page) :
    (map.resolve u).IsFault ↔ (map.resolve v).IsFault := by
  rw [resolve, resolve, get, get, h]
  cases map.entries.get v.page <;> exact Iff.rfl

end VirtualMap

namespace Space

variable {σ : Type} {s : Space σ} {w : Width} {v : GuestAddress}

/-- What a fault must not change: host memory, the cache and the devices. -/
def stock (s : Space σ) : Memory × Cache × HandlerTable σ := (s.memory, s.cache, s.handlers)

def Raises (s : Space σ) (op : Space σ → Space σ) : Prop :=
  (op { s with pending := none }).pending ≠ none

@[simp] theorem stock_raise (s : Space σ) (e : GuestException) : (s.raise e).stock = s.stock := by
  rw [raise]
  split <;> rfl

section

variable (hf : (s.virtual.resolve v).IsFault)

include hf

theorem read_of_fault (w : Width) : (s.read w v).1 = 0 ∧ (s.read w v).2.stock = s.stock := by
  rw [read]
  cases hr : s.virtual.resolve v with
  | tlbMiss => exact ⟨rfl, s.stock_raise _⟩
  | busError p => exact ⟨rfl, s.stock_raise _⟩
  | _ =>
    rw [hr] at hf
    exact absurd hf id

theorem write_of_fault (x : Word w) : (s.write v x).stock = s.stock := by
  rw [write]
  cases hr : s.virtual.resolve v with
  | tlbMiss => exact s.stock_raise _
  | busError p => exact s.stock_raise _
  | _ =>
    rw [hr] at hf
    exact absurd hf id

theorem readByte_of_fault : (s.readByte v).1 = 0 ∧ (s.readByte v).2.stock = s.stock := by
  rw [← read_w8]
  exact read_of_fault hf .w8

theorem writeByte_of_fault (x : Word .w8) : (s.writeByte v x).stock = s.stock := by
  rw [← write_w8]
  exact write_of_fault hf x

end

theorem readByte_of_not_fault (hf : ¬(s.virtual.resolve v).IsFault) :
    (s.readByte v).2.pending = s.pending := by
  rw [readByte]
  cases hr : s.virtual.resolve v with
  | host a =>
    simp only
    split <;> rfl
  | handler id p => rfl
  | _ =>
    rw [hr] at hf
    exact absurd trivial hf

theorem writeByte_of_not_fault (hf : ¬(s.virtual.resolve v).IsFault) (x : Word .w8) :
    (s.writeByte v x).pending = s.pending := by
  rw [writeByte]
  cases hr : s.virtual.resolve v with
  | host a =>
    simp only
    split <;> rfl
  | handler id p => rfl
  | _ =>
    rw [hr] at hf
    exact absurd trivial hf

/-- The devices are not asked for bytes of memory. -/
theorem handlers_readByte (s : Space σ) {a : HostAddress} (ha : s.virtual.resolve v = .host a) :
    (s.readByte v).2.handlers = s.handlers := by
  rw [readByte, ha]
  simp only
  split <;> rfl

theorem handlers_writeByte (s : Space σ) {a : HostAddress} (ha : s.virtual.resolve v = .host a)
    (x : Word .w8) : (s.writeByte v x).handlers = s.handlers := by
  rw [writeByte, ha]
  simp only
  split <;> rfl

section

variable {α : Type} (f : Space σ → α)

/-- What no byte changes, the bytes together do not change. -/
theorem readBytes_unchanged {n : Nat}
    (h : ∀ i < n, ∀ t : Space σ, t.virtual = s.virtual →
      f (t.readByte (v + UInt32.ofNat i)).2 = f t) : f (s.readBytes v n).2 = f s := by
  induction n generalizing s v with
  | zero => rfl
  | succ n ih =>
    have h0 := h 0 (Nat.zero_lt_succ n) s rfl
    rw [add_ofNat_zero] at h0
    refine (ih (s := (s.readByte v).2) (v := v + 1) fun i hi t ht => ?_).trans h0
    rw [add_one_add]
    exact h (i + 1) (Nat.succ_lt_succ hi) t
      (ht.trans (congrArg Wiring.virtual (s.wiring_readByte v)))

theorem writeBytes_unchanged {bs : List UInt8}
    (h : ∀ i < bs.length, ∀ t : Space σ, t.virtual = s.virtual → ∀ x,
      f (t.writeByte (v + UInt32.ofNat i) x) = f t) : f (s.writeBytes v bs) = f s := by
  induction bs generalizing s v with
  | nil => rfl
  | cons b bs ih =>
    have h0 := h 0 (Nat.zero_lt_succ bs.length) s rfl (Word.ofBytes .w8 [b])
    rw [add_ofNat_zero] at h0
    refine (ih (s := s.writeByte v (Word.ofBytes .w8 [b])) (v := v + 1) fun i hi t ht => ?_).trans h0
    rw [add_one_add]
    exact h (i + 1) (Nat.succ_lt_succ hi) t
      (ht.trans (congrArg Wiring.virtual (s.wiring_writeByte v _)))

end

/-- Some bytes, and then the others. -/
theorem readBytes_add (s : Space σ) (v : GuestAddress) (k n : Nat) :
    s.readBytes v (k + n) =
      ((s.readBytes v k).1 ++ ((s.readBytes v k).2.readBytes (v + UInt32.ofNat k) n).1,
        ((s.readBytes v k).2.readBytes (v + UInt32.ofNat k) n).2) := by
  induction k generalizing s v with
  | zero =>
    rw [Nat.zero_add, add_ofNat_zero]
    rfl
  | succ k ih =>
    rw [Nat.succ_add]
    simp only [readBytes, ih, add_one_add, List.append_assoc]

/-- Bytes are stored in their order, so the first of them may be stored in a store of its own. -/
theorem writeBytes_append (s : Space σ) (v : GuestAddress) (bs cs : List UInt8) :
    s.writeBytes v (bs ++ cs) = (s.writeBytes v bs).writeBytes (v + UInt32.ofNat bs.length) cs := by
  induction bs generalizing s v with
  | nil =>
    rw [List.length_nil, add_ofNat_zero]
    rfl
  | cons b bs ih =>
    rw [List.cons_append, writeBytes, ih, add_one_add]
    rfl

/-- Bytes that all fault are loaded as zeros, and nothing but the exception comes of it. -/
theorem readBytes_of_fault {n : Nat}
    (hf : ∀ i < n, (s.virtual.resolve (v + UInt32.ofNat i)).IsFault) :
    (s.readBytes v n).1 = List.replicate n 0 ∧ (s.readBytes v n).2.stock = s.stock := by
  constructor
  · induction n generalizing s v with
    | zero => rfl
    | succ n ih =>
      have h0 := hf 0 (Nat.zero_lt_succ n)
      rw [add_ofNat_zero] at h0
      have hv : (s.readByte v).2.virtual = s.virtual :=
        congrArg Wiring.virtual (s.wiring_readByte v)
      have hrest := ih (s := (s.readByte v).2) (v := v + 1) fun i hi => by
        rw [add_one_add, hv]
        exact hf (i + 1) (Nat.succ_lt_succ hi)
      show (s.readByte v).1.bytes ++ ((s.readByte v).2.readBytes (v + 1) n).1 = _
      rw [hrest, (readByte_of_fault h0).1]
      rfl
  · exact readBytes_unchanged stock fun i hi t ht => (readByte_of_fault (ht ▸ hf i hi)).2

theorem writeBytes_of_fault {bs : List UInt8}
    (hf : ∀ i < bs.length, (s.virtual.resolve (v + UInt32.ofNat i)).IsFault) :
    (s.writeBytes v bs).stock = s.stock :=
  writeBytes_unchanged stock fun i hi _ ht x => writeByte_of_fault (ht ▸ hf i hi) x

/-- How many bytes are done before a fault: none if the first one faults, and otherwise those up to
the end of the page. -/
def lead (s : Space σ) (v : GuestAddress) : Nat :=
  match s.virtual.resolve v with
  | .host _ => 4096 - v.toNat % 4096
  | _ => 0

/-- An access starts on a page that faults, or in memory and runs into such a page. -/
inductive Faulting (s : Space σ) (w : Width) (v : GuestAddress) : Prop where
  | first (fault : (s.virtual.resolve v).IsFault)
  | next {a : HostAddress} (starts : s.virtual.resolve v = .host a) (leaves : straddles v w = true)
      (fault : (s.virtual.resolve (v + UInt32.ofNat (s.lead v))).IsFault)

theorem lead_of_fault (h : (s.virtual.resolve v).IsFault) : s.lead v = 0 := by
  rw [lead]
  cases hr : s.virtual.resolve v with
  | host a =>
    rw [hr] at h
    exact absurd h id
  | _ => rfl

theorem lead_of_host {a : HostAddress} (h : s.virtual.resolve v = .host a) :
    s.lead v = 4096 - v.toNat % 4096 := by
  rw [lead, h]

/-- Bytes past the end of a page, up to a page of them, are on the next one. -/
theorem page_add_of_ge {i j : Nat} (hi : 4096 ≤ v.toNat % 4096 + i) (hi' : v.toNat % 4096 + i < 8192)
    (hj : 4096 ≤ v.toNat % 4096 + j) (hj' : v.toNat % 4096 + j < 8192) :
    (v + UInt32.ofNat i).page = (v + UInt32.ofNat j).page := by
  have hv := v.toNat_lt
  rw [GuestAddress.page_eq, GuestAddress.page_eq, UInt32.toNat_add, UInt32.toNat_add,
    UInt32.toNat_ofNat', UInt32.toNat_ofNat']
  omega

/-- No byte of an access that starts in memory and runs into no page that faults does fault. -/
theorem not_fault_of_not_faulting {a : HostAddress} (ha : s.virtual.resolve v = .host a)
    (h : ¬s.Faulting w v) {i : Nat} (hi : i < w.bytes) :
    ¬(s.virtual.resolve (v + UInt32.ofNat i)).IsFault := by
  have hw := w.bytes_le
  intro hf
  -- the byte is on the page of the first one, or on that of the first one past the end of that page
  by_cases hpage : v.toNat % 4096 + i < 4096
  · rw [s.virtual.isFault_congr (page_add_of_lt hpage), ha] at hf
    exact hf
  · refine h (.next ha ?_ ?_)
    · rw [straddles, decide_eq_true_eq, GuestAddress.toNat_pageOffset, pageSize]
      omega
    · rw [lead_of_host ha]
      rwa [s.virtual.isFault_congr (page_add_of_ge (i := 4096 - v.toNat % 4096) (j := i)
        (by omega) (by omega) (by omega) (by omega))]

/-- An access that does not go to a handler and does not fault starts in memory. -/
theorem path_eq_bytewise (h : s.path w v = .bytewise) : ∃ a, s.virtual.resolve v = .host a := by
  rw [path] at h
  split at h
  · exact ⟨_, by assumption⟩
  · cases h
  · cases h
  · cases h

theorem path_eq_fault {e : Bool → GuestException} (h : s.path w v = .fault e) :
    (s.virtual.resolve v).IsFault := by
  rw [path] at h
  split at h
  · split at h
    · cases h
    · split at h
      · split at h <;> cases h
      · cases h
  · cases h
  · rename_i hr
    rw [hr]
    trivial
  · rename_i hr
    rw [hr]
    trivial

/-- A load raises an exception only if it starts on a page that faults or runs into one. -/
theorem pending_read_of_not_faulting (h : ¬s.Faulting w v) :
    (s.read w v).2.pending = s.pending := by
  rw [read_eq_readBy]
  cases hp : s.path w v with
  | bytewise =>
    obtain ⟨a, ha⟩ := path_eq_bytewise hp
    refine readBytes_unchanged Space.pending fun i hi t ht => readByte_of_not_fault ?_
    rw [ht]
    exact not_fault_of_not_faulting ha h hi
  | fault e => exact absurd (.first (path_eq_fault hp)) h
  | _ => rfl

/-- So does a store. -/
theorem pending_write_of_not_faulting (h : ¬s.Faulting w v) (x : Word w) :
    (s.write v x).pending = s.pending := by
  rw [write_eq_writeBy]
  cases hp : s.path w v with
  | bytewise =>
    obtain ⟨a, ha⟩ := path_eq_bytewise hp
    refine writeBytes_unchanged Space.pending fun i hi t ht y => writeByte_of_not_fault ?_ y
    rw [ht]
    exact not_fault_of_not_faulting ha h (Word.length_bytes x ▸ hi)
  | fault e => exact absurd (.first (path_eq_fault hp)) h
  | _ => rfl

theorem Faulting.of_pending {pending : Option GuestException}
    (h : ({ s with pending } : Space σ).Faulting w v) : s.Faulting w v := by
  cases h with
  | first hf => exact .first hf
  | next ha hs hf => exact .next ha hs hf

theorem Faulting.of_raises_read (h : s.Raises fun t => (t.read w v).2) : s.Faulting w v := by
  by_contra hn
  exact h (pending_read_of_not_faulting (s := { s with pending := none }) fun hf => hn hf.of_pending)

theorem Faulting.of_raises_write {x : Word w} (h : s.Raises (·.write v x)) : s.Faulting w v := by
  by_contra hn
  exact h (pending_write_of_not_faulting (s := { s with pending := none })
    (fun hf => hn hf.of_pending) x)

theorem ofBytes_replicate_zero (w : Width) (n : Nat) : Word.ofBytes w (List.replicate n 0) = 0 := by
  have h : natOfBytes (List.replicate n 0) = 0 := by
    induction n with
    | zero => rfl
    | succ n ih => rw [List.replicate_succ, natOfBytes, ih]; rfl
  rw [Word.ofBytes, h]
  rfl

section

variable {a : HostAddress} (ha : s.virtual.resolve v = .host a)

include ha

theorem lead_lt_of_straddles (hs : straddles v w = true) : s.lead v < w.bytes := by
  rw [straddles, decide_eq_true_eq, GuestAddress.toNat_pageOffset, pageSize] at hs
  rw [lead_of_host ha]
  omega

/-- The bytes past the end of the page are on the next one, and all fault if its first one does. -/
theorem fault_from_lead (hf : (s.virtual.resolve (v + UInt32.ofNat (s.lead v))).IsFault) :
    ∀ i < w.bytes - s.lead v,
      (s.virtual.resolve (v + UInt32.ofNat (s.lead v) + UInt32.ofNat i)).IsFault := by
  intro i hi
  have hw := w.bytes_le
  have hl := lead_of_host ha
  rw [UInt32.add_assoc, ← UInt32.ofNat_add, s.virtual.isFault_congr (page_add_of_ge (i := s.lead v + i)
    (j := s.lead v) (by omega) (by omega) (by omega) (by omega))]
  exact hf

end

/-- Bytes before the fault are memory. -/
theorem resolve_before_lead {i : Nat} (hi : i < s.lead v) :
    ∃ b, s.virtual.resolve (v + UInt32.ofNat i) = .host b := by
  rw [lead] at hi
  split at hi
  · rename_i ha
    exact ⟨_, VirtualMap.resolve_add ha (by omega)⟩
  · exact absurd hi (Nat.not_lt_zero i)

theorem handlers_readBytes_lead (s : Space σ) (v : GuestAddress) :
    (s.readBytes v (s.lead v)).2.handlers = s.handlers :=
  readBytes_unchanged handlers fun _ hi t ht =>
    have ⟨_, hb⟩ := resolve_before_lead hi
    t.handlers_readByte (ht ▸ hb)

theorem handlers_writeBytes_take_lead (s : Space σ) (v : GuestAddress) (bs : List UInt8) :
    (s.writeBytes v (bs.take (s.lead v))).handlers = s.handlers :=
  writeBytes_unchanged handlers fun i hi t ht x =>
    have ⟨_, hb⟩ := resolve_before_lead (s := s) (v := v) (i := i) (by
      rw [List.length_take] at hi
      omega)
    t.handlers_writeByte (ht ▸ hb) x

theorem Faulting.lead_lt (h : s.Faulting w v) : s.lead v < w.bytes := by
  cases h with
  | first hf =>
    rw [lead_of_fault hf]
    exact w.bytes_pos
  | next ha hs _ => exact lead_lt_of_straddles ha hs

/-- A faulting load: the bytes before the fault, and zeros. -/
theorem Faulting.read (h : s.Faulting w v) :
    (s.read w v).1 =
        Word.ofBytes w ((s.readBytes v (s.lead v)).1 ++ List.replicate (w.bytes - s.lead v) 0) ∧
      (s.read w v).2.stock = (s.readBytes v (s.lead v)).2.stock := by
  cases h with
  | first hf =>
    obtain ⟨hvalue, hstock⟩ := read_of_fault hf w
    rw [hvalue, hstock, lead_of_fault hf]
    exact ⟨(ofBytes_replicate_zero w w.bytes).symm, rfl⟩
  | next ha hs hf =>
    have hlt := lead_lt_of_straddles ha hs
    have hsplit := s.readBytes_add v (s.lead v) (w.bytes - s.lead v)
    rw [Nat.add_sub_cancel' (Nat.le_of_lt hlt)] at hsplit
    have hv : (s.readBytes v (s.lead v)).2.virtual = s.virtual :=
      congrArg Wiring.virtual (s.wiring_readBytes v (s.lead v))
    obtain ⟨hzeros, hstock⟩ := readBytes_of_fault (s := (s.readBytes v (s.lead v)).2)
      (v := v + UInt32.ofNat (s.lead v)) (n := w.bytes - s.lead v) (hv ▸ fault_from_lead ha hf)
    have hread : s.read w v = s.readBytewise w v := by
      rw [Space.read]
      simp only [ha, hs, if_true]
    rw [hread, readBytewise, hsplit, hzeros]
    exact ⟨rfl, hstock⟩

/-- A faulting store: the bytes before the fault. -/
theorem Faulting.write (h : s.Faulting w v) (x : Word w) :
    (s.write v x).stock = (s.writeBytes v (x.bytes.take (s.lead v))).stock := by
  cases h with
  | first hf =>
    rw [write_of_fault hf, lead_of_fault hf]
    rfl
  | next ha hs hf =>
    have hl : x.bytes.length = w.bytes := Word.length_bytes x
    have hlt := lead_lt_of_straddles ha hs
    have htake : (x.bytes.take (s.lead v)).length = s.lead v := by
      rw [List.length_take, hl]
      omega
    have hsplit := s.writeBytes_append v (x.bytes.take (s.lead v)) (x.bytes.drop (s.lead v))
    rw [List.take_append_drop, htake] at hsplit
    have hv : (s.writeBytes v (x.bytes.take (s.lead v))).virtual = s.virtual :=
      congrArg Wiring.virtual (s.wiring_writeBytes v _)
    have hwrite : s.write v x = s.writeBytes v x.bytes := by
      rw [Space.write]
      simp only [ha, hs, if_true]
    rw [hwrite, hsplit]
    refine writeBytes_of_fault fun i hi => ?_
    rw [List.length_drop, hl] at hi
    rw [hv]
    exact fault_from_lead ha hf i hi

/-- An access that raises an exception does what its bytes before the fault do, reads zero from there
on, and changes nothing else of memory, the cache and the devices. There are such bytes only if it
starts in memory and leaves its page. -/
theorem stock_of_raises (s : Space σ) (w : Width) (v : GuestAddress) :
    (s.Raises (fun t => (t.read w v).2) →
        s.lead v < w.bytes ∧
          (s.read w v).1 =
              Word.ofBytes w ((s.readBytes v (s.lead v)).1 ++
                List.replicate (w.bytes - s.lead v) 0) ∧
            (s.read w v).2.stock = (s.readBytes v (s.lead v)).2.stock ∧
              (s.read w v).2.handlers = s.handlers) ∧
      ∀ x : Word w, s.Raises (·.write v x) →
        s.lead v < w.bytes ∧
          (s.write v x).stock = (s.writeBytes v (x.bytes.take (s.lead v))).stock ∧
            (s.write v x).handlers = s.handlers := by
  constructor
  · intro hr
    have hf := Faulting.of_raises_read hr
    obtain ⟨hvalue, hstock⟩ := hf.read
    have hh : (s.read w v).2.handlers = (s.readBytes v (s.lead v)).2.handlers :=
      congrArg (fun k => k.2.2) hstock
    exact ⟨hf.lead_lt, hvalue, hstock, hh.trans (s.handlers_readBytes_lead v)⟩
  · intro x hr
    have hf := Faulting.of_raises_write hr
    have hstock := hf.write x
    have hh : (s.write v x).handlers = (s.writeBytes v (x.bytes.take (s.lead v))).handlers :=
      congrArg (fun k => k.2.2) hstock
    exact ⟨hf.lead_lt, hstock, hh.trans (s.handlers_writeBytes_take_lead v x.bytes)⟩

def edge : Space Unit :=
  ((made false false).run [.allocate "ram" 0x1000 .readWrite,
    .projectBlock 0x1000 ⟨0, 0x1000⟩ 0x1000]).2

def edgeWord : Word .w32 := 0x11223344

theorem raises_write_edge : edge.Raises (·.write 0x1FFE edgeWord) := by
  unfold Raises
  decide +kernel

/-- A word over the end of the page is stored in part, and cannot be loaded. -/
theorem stock_of_raises_edge :
    edge.Raises (·.write 0x1FFE edgeWord) ∧
      (edge.write 0x1FFE edgeWord).stock = (edge.writeBytes 0x1FFE [0x44, 0x33]).stock ∧
        edge.Raises (fun t => (t.read .w32 0x1FFE).2) ∧ (edge.read .w32 0x1FFE).1 = 0 := by
  have hread : edge.Raises fun t => (t.read .w32 0x1FFE).2 := by
    unfold Raises
    decide +kernel
  have hw := ((stock_of_raises edge .w32 0x1FFE).2 edgeWord raises_write_edge).2.1
  have hr := ((stock_of_raises edge .w32 0x1FFE).1 hread).2.1
  have htake : edgeWord.bytes.take (edge.lead 0x1FFE) = [0x44, 0x33] := by decide +kernel
  have hbytes : (edge.readBytes 0x1FFE (edge.lead 0x1FFE)).1 = [0, 0] := by decide +kernel
  rw [htake] at hw
  rw [hbytes] at hr
  exact ⟨raises_write_edge, hw, hread, hr.trans (by decide)⟩

/-- So a store that raises an exception has stored its first bytes, and a load that does gives
them. -/
theorem half_stored :
    Reachable (fun _ _ => True) edge ∧ edge.Raises (·.write 0x1FFE edgeWord) ∧
      (edge.write 0x1FFE edgeWord).memory.byte 0x700000000FFE ≠
          edge.memory.byte 0x700000000FFE ∧
        (edge.write 0x1FFE edgeWord).Raises (fun t => (t.read .w32 0x1FFE).2) ∧
          ((edge.write 0x1FFE edgeWord).read .w32 0x1FFE).1 ≠ 0 := by
  refine ⟨⟨made false false, isFresh_made false false, leads_run fun _ _ _ => trivial⟩,
    raises_write_edge, by decide +kernel, ?_, by decide +kernel⟩
  unfold Raises
  decide +kernel

end Space

end GuestMemory
