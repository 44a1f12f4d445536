import GuestMemory.Proofs.Maps.Survey
import GuestMemory.Proofs.Stepwise.Basic
import GuestMemory.Proofs.Window.Changes

/-!
The calls on the two maps, operation by operation. The checks at their start are all that keeps
their loops in bounds, and nothing is changed before the last of them; so a call on a map is refused
and leaves the map, or gives what the map of pages as a whole says, and never traps.
-/
namespace GuestMemory.Stepwise

open GuestAddress

variable {S : Type}

def checkRange (limit : Nat) (call : MapCall) (start : GuestAddress) (size : UInt32) :
    Steps S Unit := do
  if !start.isAligned then refuse (.misalignedAddress call start)
  if !isAligned size then refuse (.misalignedSize call size)
  let last ← add 64 start.toNat size.toNat
  if limit < last then refuse (.outOfRange call start size limit)

/-- The checks on the size of the blocks that a range is made of. -/
def checkTiles (call : MapCall) (size blockSize : UInt32) : Steps S Unit := do
  if !isAligned blockSize then refuse (.badBlockSize call size blockSize)
  if size ≠ 0 then
    let rest ← rem size.toNat blockSize.toNat
    if rest ≠ 0 then refuse (.badBlockSize call size blockSize)

/-- Maps page after page to those of a block, from its first one on again after its last one. -/
def mapBlock (base : HostAddress) (start : GuestAddress) (size blockSize : UInt32) :
    Steps PhysicalMap Unit := do
  checkRange physicalSize .mapBlock start size
  if !base.isAligned then refuse (.misalignedPointer .mapBlock base)
  let blockSize := blockBytes size blockSize
  checkTiles .mapBlock size blockSize
  let period := page blockSize
  repeated (fun i => do
    let k ← rem i period
    let offset ← mul 64 k pageSize
    let host ← add 64 base.toNat offset
    let target ← add 64 start.page i
    index target (2 ^ 17)
    modify fun map => { map with pages := map.pages.set target (.memory (UInt64.ofNat host)) })
    (page size)

def mapHandler (id : HandlerId) (start : GuestAddress) (size : UInt32) :
    Steps PhysicalMap Unit := do
  checkRange physicalSize .mapHandler start size
  let last ← add 64 start.page (page size)
  slice start.page last (2 ^ 17)
  modify fun map =>
    { map with pages := map.pages.fill start.page (last - start.page) fun _ => .handler id }

def duplicate (target start : GuestAddress) (size : UInt32) : Steps PhysicalMap Unit := do
  checkRange physicalSize .duplicate start size
  checkRange physicalSize .duplicate target size
  let last ← add 64 start.page (page size)
  slice start.page last (2 ^ 17)
  let room ← sub (2 ^ 17) (last - start.page)
  demand .index (target.page ≤ room)
  modify fun map =>
    { map with
      pages := map.pages.fill target.page (last - start.page) fun i =>
        map.pages.get (start.page + i) }

def pageAt (start : GuestAddress) (i : Nat) : Steps S GuestAddress := do
  let distance ← mul 32 i pageSize
  let address ← add 32 start.toNat distance
  return UInt32.ofNat address

def putPage (v : GuestAddress) (entry : VirtualEntry) (p : Option GuestAddress) :
    Steps VirtualMap Unit := do
  index v.page (2 ^ 20)
  modify fun map => { map with entries := map.entries.set v.page entry }
  index v.page (2 ^ 20)
  modify fun map => { map with physical := map.physical.set v.page p }

def project (physical : PhysicalMap) (v p : GuestAddress) (size : UInt32) :
    Steps VirtualMap Unit := do
  checkRange 0x100000000 .project v size
  if !p.isAligned then refuse (.misalignedAddress .project p)
  repeated (fun i => do
    let target ← pageAt v i
    let distance ← mul 32 i pageSize
    let source := p + UInt32.ofNat distance
    putPage target (.project (physical.lookup source) source target) (some source)) (page size)

def projectBuffer (v : GuestAddress) (buffer : HostAddress) (size : UInt32) :
    Steps VirtualMap Unit := do
  checkRange 0x100000000 .projectBuffer v size
  if !buffer.isAligned then refuse (.misalignedPointer .projectBuffer buffer)
  repeated (fun i => do
    let target ← pageAt v i
    let distance ← mul 32 i pageSize
    let host ← add 64 buffer.toNat distance
    putPage target (.ofHost (UInt64.ofNat host) target) none) (page size)

def unmap (v : GuestAddress) (size : UInt32) : Steps VirtualMap Unit := do
  checkRange 0x100000000 .unmap v size
  let last ← add 64 v.page (page size)
  slice v.page last (2 ^ 20)
  modify fun map =>
    { map with entries := map.entries.fill v.page (last - v.page) fun _ => .unmapped }
  slice v.page last (2 ^ 20)
  modify fun map =>
    { map with physical := map.physical.fill v.page (last - v.page) fun _ => none }

/-- Pages of a range lie in the table of as many pages as the limit has. -/
theorem page_add_le {start : GuestAddress} {size : UInt32} {n : Nat}
    (h : start.toNat + size.toNat ≤ n * 4096) : start.page + page size ≤ n := by
  rw [page_eq, page_eq]
  omega

/-- The sum of the check fits, since its words have half the bits. -/
theorem checkRange_eq (limit : Nat) (call : MapCall) (start : GuestAddress) (size : UInt32) :
    (checkRange limit call start size : Steps S Unit) = checked (
      if !start.isAligned then .error (.misalignedAddress call start)
      else if !isAligned size then .error (.misalignedSize call size)
      else if limit < start.toNat + size.toNat then .error (.outOfRange call start size limit)
      else .ok ()) := by
  have hsum : start.toNat + size.toNat < 2 ^ 64 := by
    have := start.toNat_lt
    have := size.toNat_lt
    omega
  rw [checkRange, add_eq hsum]
  simp only [pure_bind]
  cases start.isAligned with
  | false => rfl
  | true =>
    cases isAligned size with
    | false => rfl
    | true =>
      by_cases hend : limit < start.toNat + size.toNat
      · simp only [Bool.not_true, Bool.false_eq_true, if_false, hend, if_true]
        rfl
      · simp only [Bool.not_true, Bool.false_eq_true, if_false, hend]
        rfl

section

variable {result : Except MapError Unit} {c : Prop} [Decidable c] {e : MapError}
  {g : Unit → Steps S Unit} {r : Unit → Except MapError S} {s : S}

/-- After a check a call goes on as the whole of it does where the check is passed. -/
theorem checked_bind (h : ∀ u, result = .ok u → g u s = answer (r u) s) :
    (checked result >>= g) s = answer (result >>= r) s := by
  cases result with
  | ok u => exact h u rfl
  | error e => rfl

theorem checked_unless (h : ¬c → g () s = answer (r ()) s) :
    (checked (if c then .error e else .ok ()) >>= g) s =
      answer (if c then throw e >>= r else r ()) s := by
  by_cases hc : c
  · simp only [if_pos hc]
    rfl
  · simp only [if_neg hc]
    exact h hc

theorem refuse_unless (h : ¬c → g () s = answer (r ()) s) :
    (if c then refuse e >>= g else g ()) s = answer (if c then throw e >>= r else r ()) s := by
  by_cases hc : c
  · simp only [if_pos hc]
    rfl
  · simp only [if_neg hc]
    exact h hc

end

theorem mapHandler_eq (id : HandlerId) (start : GuestAddress) (size : UInt32)
    (map : PhysicalMap) :
    mapHandler id start size map = answer (map.mapHandler id start size) map := by
  rw [mapHandler, checkRange_eq]
  refine checked_bind fun u hu => ?_
  obtain ⟨-, -, hend⟩ := PhysicalMap.checkRange_ok_iff.1 hu
  have hlast : start.page + page size ≤ 2 ^ 17 := page_add_le hend
  rw [add_eq (by omega), pure_bind, slice_eq (Nat.le_add_right _ _) hlast, pure_bind,
    Nat.add_sub_cancel_left]
  rfl

theorem duplicate_eq (target start : GuestAddress) (size : UInt32) (map : PhysicalMap) :
    duplicate target start size map = answer (map.duplicate target start size) map := by
  rw [duplicate, checkRange_eq, checkRange_eq]
  refine checked_bind fun u hu => checked_bind fun u' hu' => ?_
  obtain ⟨-, -, hend⟩ := PhysicalMap.checkRange_ok_iff.1 hu
  obtain ⟨-, -, hend'⟩ := PhysicalMap.checkRange_ok_iff.1 hu'
  have hlast : start.page + page size ≤ 2 ^ 17 := page_add_le hend
  have hlast' : target.page + page size ≤ 2 ^ 17 := page_add_le hend'
  rw [add_eq (by omega), pure_bind, slice_eq (Nat.le_add_right _ _) hlast, pure_bind,
    Nat.add_sub_cancel_left, sub_eq (by omega), pure_bind, demand_eq (by omega), pure_bind]
  rfl

/-- Only a range of no bytes has blocks of no bytes. -/
theorem checkTiles_eq {call : MapCall} {size blockSize : UInt32} (h : blockSize = 0 → size = 0) :
    (checkTiles call size blockSize : Steps S Unit) = checked (
      if !isAligned blockSize || (size != 0 && size % blockSize != 0) then
        .error (.badBlockSize call size blockSize)
      else .ok ()) := by
  rw [checkTiles]
  cases isAligned blockSize with
  | false => rfl
  | true =>
    by_cases hsize : size = 0
    · simp [hsize]
      rfl
    · have hne : blockSize.toNat ≠ 0 := by
        intro hz
        exact hsize (h (by rw [← UInt32.toNat_inj, hz, UInt32.toNat_zero]))
      have hrest : size.toNat % blockSize.toNat = 0 ↔ size % blockSize = 0 := by
        rw [← UInt32.toNat_inj, UInt32.toNat_mod, UInt32.toNat_zero]
      rw [rem_eq hne, pure_bind]
      by_cases hmod : size % blockSize = 0
      · simp [hsize, hmod, hrest]
        rfl
      · simp [hsize, hmod, hrest]
        rfl

/-- Mapping a block page by page comes to mapping it as a whole, and nothing traps where the host
addresses of the block fit into a word. -/
theorem mapBlock_eq (base : HostAddress) (start : GuestAddress) (size blockSize : UInt32)
    (map : PhysicalMap) (room : base.toNat + (blockBytes size blockSize).toNat ≤ 2 ^ 64) :
    mapBlock base start size blockSize map =
      answer (map.mapBlock base start size blockSize) map := by
  have hzero : blockBytes size blockSize = 0 → size = 0 := by
    rw [blockBytes]
    split
    · exact id
    · intro h
      contradiction
  rw [mapBlock, checkRange_eq]
  refine checked_bind fun u hu => refuse_unless fun hb => ?_
  show (checkTiles .mapBlock size (blockBytes size blockSize) >>= fun _ => repeated _ _) map = _
  rw [checkTiles_eq hzero]
  refine checked_unless fun hbad => ?_
  obtain ⟨hs, hz, hend⟩ := PhysicalMap.checkRange_ok_iff.1 hu
  have hlast : start.page + page size ≤ 2 ^ 17 := page_add_le hend
  rw [Bool.or_eq_true, not_or, Bool.not_eq_true', Bool.not_eq_false, isAligned_iff] at hbad
  obtain ⟨haligned, -⟩ := hbad
  refine repeated_eq_ok (fun i => { map with
    pages := map.pages.fill start.page i fun i =>
      .memory (base + UInt64.ofNat (i % page (blockBytes size blockSize) * pageSize)) })
    fun i hi => ?_
  have hbytes := page_eq (blockBytes size blockSize)
  have hperiod : page (blockBytes size blockSize) ≠ 0 := by
    intro h
    have hnone : blockBytes size blockSize = 0 := by
      rw [← UInt32.toNat_inj, UInt32.toNat_zero]
      omega
    rw [hzero hnone] at hi
    exact absurd hi (Nat.not_lt_zero i)
  have hk := Nat.mod_lt i (Nat.pos_of_ne_zero hperiod)
  rw [rem_eq hperiod, pure_bind, mul_eq (by rw [pageSize]; omega), pure_bind,
    add_eq (by rw [pageSize]; omega), pure_bind, add_eq (by omega), pure_bind, index_eq (by omega),
    pure_bind, Table.fill_succ]
  have hhost : UInt64.ofNat (base.toNat + i % page (blockBytes size blockSize) * pageSize) =
      base + UInt64.ofNat (i % page (blockBytes size blockSize) * pageSize) := by
    rw [UInt64.ofNat_add, UInt64.ofNat_toNat]
  rw [hhost]
  rfl

/-- The pages of a range have addresses of their own, the last one included. -/
theorem pageAt_eq {start : GuestAddress} {size : UInt32} {i : Nat}
    (h : start.toNat + size.toNat ≤ 2 ^ 32) (hi : i < page size) :
    (pageAt start i : Steps S GuestAddress) = pure (VirtualMap.pageAddress start i) := by
  rw [page_eq] at hi
  have hsum : UInt32.ofNat (start.toNat + i * pageSize) = VirtualMap.pageAddress start i := by
    rw [VirtualMap.pageAddress, UInt32.ofNat_add, UInt32.ofNat_toNat]
  rw [pageAt, mul_eq (by rw [pageSize]; omega), pure_bind, add_eq (by rw [pageSize]; omega),
    pure_bind, hsum]

/-- Both tables have room for every page. -/
theorem putPage_eq (v : GuestAddress) (entry : VirtualEntry) (p : Option GuestAddress) :
    putPage v entry p = modify fun map =>
      { map with
        entries := map.entries.set v.page entry
        physical := map.physical.set v.page p } := by
  have hv : v.page < 2 ^ 20 := v.page_lt
  rw [putPage, index_eq hv, pure_bind, pure_bind]
  rfl

/-- Filling both tables page by page, as long as the pages have addresses. -/
theorem repeated_putPage {round : Nat → Steps VirtualMap Unit} {start : GuestAddress}
    {size : UInt32} {entry : Nat → VirtualEntry} {p : Nat → Option GuestAddress}
    (h : start.toNat + size.toNat ≤ 2 ^ 32)
    (hround : ∀ i < page size,
      round i = putPage (VirtualMap.pageAddress start i) (entry i) (p i)) (map : VirtualMap) :
    repeated round (page size) map = .ok () {
      entries := map.entries.fill start.page (page size) entry
      physical := map.physical.fill start.page (page size) p } := by
  refine repeated_eq_ok (fun i => VirtualMap.mk (map.entries.fill start.page i entry)
    (map.physical.fill start.page i p)) fun i hi => ?_
  have hlast : start.page + page size ≤ 2 ^ 20 := page_add_le h
  have hpage : (VirtualMap.pageAddress start i).page = start.page + i :=
    Window.page_pageAddress (by omega)
  rw [hround i hi, putPage_eq, hpage, Table.fill_succ, Table.fill_succ]
  rfl

/-- Projecting page by page comes to projecting as a whole. -/
theorem project_eq (physical : PhysicalMap) (v p : GuestAddress) (size : UInt32)
    (map : VirtualMap) :
    project physical v p size map = answer (map.project physical v p size) map := by
  rw [project, checkRange_eq]
  refine checked_bind fun u hu => refuse_unless fun hp => ?_
  obtain ⟨-, -, hend⟩ := VirtualMap.checkRange_ok_iff.1 hu
  refine repeated_putPage hend (fun i hi => ?_) map
  rw [pageAt_eq hend hi, pure_bind, mul_eq (by rw [page_eq] at hi; rw [pageSize]; omega), pure_bind]
  rfl

/-- So does mapping host memory, where its addresses fit into a word. -/
theorem projectBuffer_eq (v : GuestAddress) (buffer : HostAddress) (size : UInt32)
    (map : VirtualMap) (room : buffer.toNat + size.toNat ≤ 2 ^ 64) :
    projectBuffer v buffer size map = answer (map.projectBuffer v buffer size) map := by
  rw [projectBuffer, checkRange_eq]
  refine checked_bind fun u hu => refuse_unless fun hb => ?_
  obtain ⟨-, -, hend⟩ := VirtualMap.checkRange_ok_iff.1 hu
  refine repeated_putPage hend (fun i hi => ?_) map
  have hhost : UInt64.ofNat (buffer.toNat + i * pageSize) =
      buffer + UInt64.ofNat (i * pageSize) := by
    rw [UInt64.ofNat_add, UInt64.ofNat_toNat]
  rw [pageAt_eq hend hi, pure_bind]
  rw [page_eq] at hi
  rw [mul_eq (by rw [pageSize]; omega), pure_bind, add_eq (by rw [pageSize]; omega), pure_bind,
    hhost]

theorem unmap_eq (v : GuestAddress) (size : UInt32) (map : VirtualMap) :
    unmap v size map = answer (map.unmap v size) map := by
  rw [unmap, checkRange_eq]
  refine checked_bind fun u hu => ?_
  obtain ⟨-, -, hend⟩ := VirtualMap.checkRange_ok_iff.1 hu
  have hlast : v.page + page size ≤ 2 ^ 20 := page_add_le hend
  rw [add_eq (by omega), pure_bind, slice_eq (Nat.le_add_right _ _) hlast, Nat.add_sub_cancel_left]
  rfl

end GuestMemory.Stepwise
