import GuestMemory.Proofs.Access.Path

/-!
What no guest access changes. The wiring of a space is everything that decides where an access goes;
loads, stores and cache operations work on what is behind it.
-/
namespace GuestMemory

/-- The parts of a space that decide where an access goes. -/
structure Wiring where
  settings : Settings
  arena : Arena
  physical : PhysicalMap
  virtual : VirtualMap
  control : Cache.Control
  window : Option Window

namespace Space

variable {σ : Type}

def wiring (s : Space σ) : Wiring :=
  ⟨s.settings, s.arena, s.physical, s.virtual, s.control, s.window⟩

/-- Two spaces with one wiring agree on which addresses are cached. -/
theorem isCached_of_wiring {s t : Space σ} (h : t.wiring = s.wiring) (v : GuestAddress) :
    t.isCached v = s.isCached v := by
  have hs : t.settings = s.settings := congrArg Wiring.settings h
  have hc : t.control = s.control := congrArg Wiring.control h
  rw [isCached, isCached, hs, hc]

@[simp] theorem wiring_drained (s : Space σ) : s.drained.wiring = s.wiring := rfl

@[simp] theorem wiring_raise (s : Space σ) (e : GuestException) :
    (s.raise e).wiring = s.wiring := by
  rw [raise]
  split <;> rfl

@[simp] theorem wiring_readCached (s : Space σ) (w : Width) (v : GuestAddress)
    (host : HostAddress) (fits : Cache.Fits v w) :
    (s.readCached w v host fits).2.wiring = s.wiring := rfl

@[simp] theorem wiring_writeCached {w : Width} (s : Space σ) (v : GuestAddress)
    (host : HostAddress) (x : Word w) (fits : Cache.Fits v w) :
    (s.writeCached v host x fits).wiring = s.wiring := rfl

/-- No part of an access changes the wiring. -/
theorem accessKeeps_wiring (s : Space σ) : AccessKeeps fun t : Space σ => t.wiring = s.wiring where
  store _ _ h := h
  readCached _ _ h := h
  writeCached _ _ _ h := h
  readHandler _ _ _ h := h
  writeHandler _ _ _ h := h
  raise e h := (wiring_raise _ e).trans h

@[simp] theorem wiring_readByte (s : Space σ) (v : GuestAddress) :
    (s.readByte v).2.wiring = s.wiring :=
  s.accessKeeps_wiring.readByte rfl v

@[simp] theorem wiring_writeByte (s : Space σ) (v : GuestAddress) (x : Word .w8) :
    (s.writeByte v x).wiring = s.wiring :=
  s.accessKeeps_wiring.writeByte rfl v x

@[simp] theorem wiring_readBytes (s : Space σ) (v : GuestAddress) (n : Nat) :
    (s.readBytes v n).2.wiring = s.wiring :=
  s.accessKeeps_wiring.readBytes rfl v n

@[simp] theorem wiring_writeBytes (s : Space σ) (v : GuestAddress) (bs : List UInt8) :
    (s.writeBytes v bs).wiring = s.wiring :=
  s.accessKeeps_wiring.writeBytes rfl v bs

@[simp] theorem wiring_read (s : Space σ) (w : Width) (v : GuestAddress) :
    (s.read w v).2.wiring = s.wiring :=
  s.accessKeeps_wiring.read rfl w v

@[simp] theorem wiring_write {w : Width} (s : Space σ) (v : GuestAddress) (x : Word w) :
    (s.write v x).wiring = s.wiring :=
  s.accessKeeps_wiring.write rfl v x

@[simp] theorem wiring_storeBytes (s : Space σ) (v : GuestAddress) (bs : List UInt8) :
    (s.storeBytes v bs).wiring = s.wiring := by
  induction bs generalizing s v with
  | nil => rfl
  | cons b bs ih =>
    rw [storeBytes, ih]
    split <;> rfl

@[simp] theorem wiring_ramWrite {w : Width} (s : Space σ) (v : GuestAddress) (x : Word w) :
    (s.ramWrite v x).2.wiring = s.wiring := by
  rw [ramWrite]
  split
  · split <;> simp
  · split <;> rfl

@[simp] theorem wiring_cacheOp (s : Space σ) (op : Cache.Op) (v : GuestAddress)
    (packed : UInt64) : (s.cacheOp op v packed).2.wiring = s.wiring := by
  rw [cacheOp]
  split
  · split <;> rfl
  · rfl

end Space

end GuestMemory
