import GuestMemory.Proofs.Maps.Addresses
import GuestMemory.Proofs.Maps.Atlas
import Mathlib.Data.List.Induction

/-!
Runs of calls on a physical map. The arguments of a call alone decide whether it is accepted, and a
call that is refused leaves the map as it was. So after any run an address has what the last
accepted call that covers it gave, and a duplicate gave what the address it copies had at that time.
-/
namespace GuestMemory

/-- Entry of a page whose first byte has this source. -/
def Source.entry : Source → PhysicalEntry
  | memory byte => .memory byte
  | handler id => .handler id

def Source.byte? : Source → Option HostAddress
  | memory byte => some byte
  | handler _ => none

namespace PhysicalMap

inductive Call where
  | mapBlock (base : HostAddress) (start : GuestAddress) (size blockSize : UInt32)
  | mapHandler (id : HandlerId) (start : GuestAddress) (size : UInt32)
  | duplicate (target start : GuestAddress) (size : UInt32)
  | reset

def IsRange (start : GuestAddress) (size : UInt32) : Prop :=
  start.toNat % 4096 = 0 ∧ size.toNat % 4096 = 0 ∧ start.toNat + size.toNat ≤ physicalSize

instance (start : GuestAddress) (size : UInt32) : Decidable (IsRange start size) :=
  inferInstanceAs (Decidable (_ ∧ _))

namespace Call

def perform (map : PhysicalMap) : Call → Except MapError PhysicalMap
  | mapBlock base start size blockSize => map.mapBlock base start size blockSize
  | mapHandler id start size => map.mapHandler id start size
  | duplicate target start size => map.duplicate target start size
  | reset => .ok {}

def Fits : Call → Prop
  | mapBlock base start size blockSize =>
    IsRange start size ∧ base.toNat % 4096 = 0 ∧ (blockBytes size blockSize).toNat % 4096 = 0 ∧
      (blockBytes size blockSize).toNat ∣ size.toNat
  | mapHandler _ start size => IsRange start size
  | duplicate target start size => IsRange start size ∧ IsRange target size
  | reset => True

def Reaches (p : GuestAddress) : Call → Prop
  | mapBlock _ start size _ => Covers start size p
  | mapHandler _ start size => Covers start size p
  | duplicate target _ size => Covers target size p
  | reset => True

/-- What a call gives an address that it is about, if `before` is what all addresses had. -/
def gives (before : GuestAddress → Option Source) (p : GuestAddress) : Call → Option Source
  | mapBlock base start size blockSize =>
    some (.memory (Atlas.tile base (blockBytes size blockSize) (p - start)))
  | mapHandler id _ _ => some (.handler id)
  | duplicate target start _ => before (start + (p - target))
  | reset => Atlas.initial.physical p

instance (c : Call) : Decidable c.Fits :=
  match c with
  | mapBlock .. => inferInstanceAs (Decidable (_ ∧ _))
  | mapHandler .. => inferInstanceAs (Decidable (IsRange _ _))
  | duplicate .. => inferInstanceAs (Decidable (_ ∧ _))
  | reset => .isTrue trivial

instance (p : GuestAddress) (c : Call) : Decidable (c.Reaches p) :=
  match c with
  | mapBlock .. => inferInstanceAs (Decidable (Covers _ _ _))
  | mapHandler .. => inferInstanceAs (Decidable (Covers _ _ _))
  | duplicate .. => inferInstanceAs (Decidable (Covers _ _ _))
  | reset => .isTrue trivial

end Call

def after (map : PhysicalMap) (c : Call) : PhysicalMap :=
  match c.perform map with
  | .ok map' => map'
  | .error _ => map

def run (calls : List Call) : PhysicalMap := calls.foldl after {}

/-- What answers an address after a run of calls, the latest of which comes first: what the first
accepted call in the list that is about the address gives, over what the calls behind it leave. -/
def disposition : List Call → GuestAddress → Option Source
  | [], p => Atlas.initial.physical p
  | c :: earlier, p =>
    if c.Fits ∧ c.Reaches p then c.gives (disposition earlier) p else disposition earlier p

variable {map map' : PhysicalMap} {c : Call}

theorem exists_checkRange_eq_ok {call : MapCall} {start : GuestAddress} {size : UInt32} :
    (∃ u, checkRange call start size = .ok u) ↔ IsRange start size :=
  ⟨fun ⟨(), h⟩ => checkRange_ok_iff.1 h, fun h => ⟨(), checkRange_ok_iff.2 h⟩⟩

/-- Blocks of no bytes tile only ranges of no bytes. -/
theorem tiles_iff (size blockSize : UInt32) :
    ¬(size != 0 && size % blockSize != 0) = true ↔ blockSize.toNat ∣ size.toNat := by
  have hzero : size = 0 ↔ size.toNat = 0 := UInt32.toNat_inj.symm
  have hmod : size % blockSize = 0 ↔ size.toNat % blockSize.toNat = 0 := by
    rw [← UInt32.toNat_inj, UInt32.toNat_mod]
    rfl
  rw [Bool.and_eq_true, bne_iff_ne, bne_iff_ne, ← not_or, not_not, hzero, hmod,
    Nat.dvd_iff_mod_eq_zero]
  refine ⟨fun h => h.elim (fun h0 => ?_) id, Or.inr⟩
  rw [h0, Nat.zero_mod]

/-- The arguments of a call decide whether it is accepted. -/
theorem Call.perform_eq_ok_iff (map : PhysicalMap) (c : Call) :
    (∃ map', c.perform map = .ok map') ↔ c.Fits := by
  cases c with
  | mapBlock base start size blockSize =>
    have hbase : ¬(!base.isAligned) = true ↔ base.toNat % 4096 = 0 := by
      rw [← HostAddress.isAligned_iff, Bool.not_eq_true', Bool.not_eq_false]
    have hblock : ¬(!GuestAddress.isAligned (blockBytes size blockSize)) = true ↔
        (blockBytes size blockSize).toNat % 4096 = 0 := by
      rw [← GuestAddress.isAligned_iff, Bool.not_eq_true', Bool.not_eq_false]
    rw [Fits, ← hbase, ← hblock, ← tiles_iff, ← exists_checkRange_eq_ok]
    simp only [perform, PhysicalMap.mapBlock, bind_eq_ok, unless_throw_eq_ok, pure, Except.pure,
      Except.ok.injEq, Bool.or_eq_true, not_or]
    constructor
    · rintro ⟨-, u, hc, hb, hbad, -⟩
      exact ⟨⟨u, hc⟩, hb, hbad⟩
    · rintro ⟨⟨u, hc⟩, hb, hbad⟩
      exact ⟨_, u, hc, hb, hbad, rfl⟩
  | mapHandler id start size =>
    simp [perform, PhysicalMap.mapHandler, bind_eq_ok, pure, Except.pure, Fits,
      exists_checkRange_eq_ok]
  | duplicate target start size =>
    simp [perform, PhysicalMap.duplicate, bind_eq_ok, pure, Except.pure, Fits,
      exists_checkRange_eq_ok]
  | reset => simp [perform, Fits]

/-- What an accepted call does to one address. -/
theorem source?_perform (h : c.perform map = .ok map') (p : GuestAddress) :
    map'.source? p = if c.Reaches p then c.gives map.source? p else map.source? p := by
  cases c with
  | mapBlock base start size blockSize => exact source?_mapBlock h p
  | mapHandler id start size => exact source?_mapHandler h p
  | duplicate target start size => exact source?_duplicate h p
  | reset =>
    cases h
    exact source?_empty p

/-- One call, accepted or not. -/
theorem source?_after (map : PhysicalMap) (c : Call) (p : GuestAddress) :
    (map.after c).source? p =
      if c.Fits ∧ c.Reaches p then c.gives map.source? p else map.source? p := by
  rw [after]
  cases h : c.perform map with
  | ok map' =>
    have hfits : c.Fits := (c.perform_eq_ok_iff map).1 ⟨map', h⟩
    simp only [source?_perform h p, hfits, true_and]
  | error cause =>
    have hfits : ¬c.Fits := by
      rw [← c.perform_eq_ok_iff map, h]
      simp
    rw [if_neg fun hc => hfits hc.1]

/-- A run leaves what its calls say, and nothing else of the maps on the way matters. -/
theorem source?_run (calls : List Call) : (run calls).source? = disposition calls.reverse := by
  induction calls using List.reverseRecOn with
  | nil => exact funext source?_empty
  | append_singleton calls c ih =>
    -- the last call of the run is the first one in the list
    funext p
    rw [run, List.foldl_append, List.foldl_cons, List.foldl_nil, ← run, source?_after, ih,
      List.reverse_append]
    rfl

/-- The entry of a page is told by what answers its first byte. -/
theorem lookup_eq (map : PhysicalMap) (p : GuestAddress) :
    map.lookup p = (map.source? p.pageBase).map Source.entry := by
  have ho : p.pageBase.pageOffset = 0 := by
    rw [← beq_iff_eq, ← GuestAddress.isAligned, GuestAddress.isAligned_iff,
      GuestAddress.toNat_pageBase]
    omega
  rw [source?, map.lookup_of_page_eq p.page_pageBase]
  cases map.lookup p with
  | none => rfl
  | some entry => cases entry <;> simp [PhysicalEntry.source, Source.entry, ho]

theorem hostAddress?_eq (map : PhysicalMap) (p : GuestAddress) :
    map.hostAddress? p = (map.source? p).bind Source.byte? := by
  rw [hostAddress?, source?]
  cases map.lookup p with
  | none => rfl
  | some entry => cases entry <;> rfl

/-- After every run of calls, refused ones among them, a page has what the last accepted call that
is about it gave, and memory answers with exactly the byte that this call says. -/
theorem run_surveyed (calls : List Call) :
    (∀ (c : Call) (map : PhysicalMap), (∃ map', c.perform map = .ok map') ↔ c.Fits) ∧
    (∀ p, (run calls).lookup p = (disposition calls.reverse p.pageBase).map Source.entry) ∧
    (∀ p, (run calls).hostAddress? p = (disposition calls.reverse p).bind Source.byte?) ∧
    ∀ p, physicalSize ≤ p.toNat →
      (run calls).lookup p = none ∧ (run calls).hostAddress? p = none := by
  refine ⟨fun c map => c.perform_eq_ok_iff map, fun p => ?_, fun p => ?_, fun p hp => ?_⟩
  · rw [lookup_eq, source?_run]
  · rw [hostAddress?_eq, source?_run]
  · have hnone : (run calls).lookup p = none := if_neg (Nat.not_lt.2 hp)
    exact ⟨hnone, by rw [hostAddress?, hnone]⟩

/-- Page 1 is on both sides of the copy; page 2 gets what it had before. -/
example :
    let map := run [.mapHandler 1 0 0x1000, .mapHandler 2 0x1000 0x1000, .duplicate 0x1000 0 0x2000]
    map.lookup 0x1000 = some (.handler 1) ∧ map.lookup 0x2000 = some (.handler 2) := by
  decide

end PhysicalMap

end GuestMemory
