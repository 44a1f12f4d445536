import GuestMemory.Space.Access

/-!
The path that a guest access takes. Where it goes is decided by the maps, the control of the cache
and the bounds of pages and lines; loads and stores of a width take the same path, and a single byte
never needs to be split. So what the parts of an access keep, every access keeps.
-/
namespace GuestMemory.Space

inductive Path (w : Width) (v : GuestAddress) where
  | memory (a : HostAddress)
  | cached (a : HostAddress) (fits : Cache.Fits v w)
  | bytewise
  | handler (id : HandlerId) (p : GuestAddress)
  /-- The exception depends on whether the access stores. -/
  | fault (exception : Bool → GuestException)

variable {σ : Type} {w : Width} {v : GuestAddress}

def path (s : Space σ) (w : Width) (v : GuestAddress) : Path w v :=
  match s.virtual.resolve v with
  | .host a =>
    if straddles v w then .bytewise
    else if s.isCached v then
      if fits : Cache.Fits v w then .cached a fits else .bytewise
    else .memory a
  | .handler id p => .handler id p
  | .tlbMiss => .fault (.tlbMiss v)
  | .busError p => .fault (.busError p)

/-- A load that takes a path. -/
def readBy (s : Space σ) : Path w v → Word w × Space σ
  | .memory a => (s.memory.load w a, s)
  | .cached a fits => s.readCached w v a fits
  | .bytewise => s.readBytewise w v
  | .handler id p => s.readHandler id w p
  | .fault e => (0, s.raise (e false))

def writeBy (s : Space σ) (x : Word w) : Path w v → Space σ
  | .memory a => { s with memory := s.memory.store a x }
  | .cached a fits => s.writeCached v a x fits
  | .bytewise => s.writeBytes v x.bytes
  | .handler id p => s.writeHandler id p x
  | .fault e => s.raise (e true)

/-- A load takes the path of its address. -/
theorem read_eq_readBy (s : Space σ) (w : Width) (v : GuestAddress) :
    s.read w v = s.readBy (s.path w v) := by
  rw [read, path]
  cases s.virtual.resolve v with
  | host a =>
    simp only
    split
    · rfl
    · split
      · split <;> rfl
      · rfl
  | _ => rfl

/-- A store takes the path of its address. -/
theorem write_eq_writeBy (s : Space σ) (v : GuestAddress) (x : Word w) :
    s.write v x = s.writeBy x (s.path w v) := by
  rw [write, path]
  cases s.virtual.resolve v with
  | host a =>
    simp only
    split
    · rfl
    · split
      · split <;> rfl
      · rfl
  | _ => rfl

theorem not_straddles_w8 (v : GuestAddress) : straddles v .w8 = false := by
  rw [straddles, decide_eq_false_iff_not, GuestAddress.toNat_pageOffset, Width.bytes_w8, pageSize]
  omega

/-- A single byte never straddles, so where its page leads decides. -/
theorem path_w8 (s : Space σ) (v : GuestAddress) :
    s.path .w8 v =
      match s.virtual.resolve v with
      | .host a => if s.isCached v then .cached a (fits_w8 v) else .memory a
      | .handler id p => .handler id p
      | .tlbMiss => .fault (.tlbMiss v)
      | .busError p => .fault (.busError p) := by
  rw [path]
  cases s.virtual.resolve v with
  | host a => simp only [not_straddles_w8, fits_w8, dif_pos, Bool.false_eq_true, if_false]
  | _ => rfl

theorem path_w8_ne_bytewise (s : Space σ) (v : GuestAddress) : s.path .w8 v ≠ .bytewise := by
  rw [path_w8]
  split
  · split <;> simp
  · simp
  · simp
  · simp

theorem readByte_eq_readBy (s : Space σ) (v : GuestAddress) :
    s.readByte v = s.readBy (s.path .w8 v) := by
  rw [readByte, path_w8]
  cases s.virtual.resolve v with
  | host a =>
    simp only
    split <;> rfl
  | _ => rfl

theorem writeByte_eq_writeBy (s : Space σ) (v : GuestAddress) (x : Word .w8) :
    s.writeByte v x = s.writeBy x (s.path .w8 v) := by
  rw [writeByte, path_w8]
  cases s.virtual.resolve v with
  | host a =>
    simp only
    split <;> rfl
  | _ => rfl

/-- A single byte is loaded like any other width. -/
theorem read_w8 (s : Space σ) (v : GuestAddress) : s.read .w8 v = s.readByte v := by
  rw [read_eq_readBy, readByte_eq_readBy]

theorem write_w8 (s : Space σ) (v : GuestAddress) (x : Word .w8) :
    s.write v x = s.writeByte v x := by
  rw [write_eq_writeBy, writeByte_eq_writeBy]

/-- An access that goes to memory past the cache stays on its page, and is not cached. -/
theorem path_eq_memory {s : Space σ} {a : HostAddress} (h : s.path w v = .memory a) :
    s.virtual.resolve v = .host a ∧ ¬straddles v w ∧ ¬s.isCached v := by
  rw [path] at h
  split at h
  · rename_i b hb
    by_cases hs : straddles v w
    · simp only [hs, if_true, reduceCtorEq] at h
    · by_cases hc : s.isCached v
      · simp only [hs, hc, if_true, Bool.false_eq_true, if_false] at h
        split at h <;> cases h
      · simp only [hs, hc, Bool.false_eq_true, if_false, Path.memory.injEq] at h
        exact ⟨h ▸ hb, hs, hc⟩
  · cases h
  · cases h
  · cases h

theorem path_eq_cached {s : Space σ} {a : HostAddress} {fits : Cache.Fits v w}
    (h : s.path w v = .cached a fits) :
    s.virtual.resolve v = .host a ∧ ¬straddles v w ∧ s.isCached v := by
  rw [path] at h
  split at h
  · rename_i b hb
    by_cases hs : straddles v w
    · simp only [hs, if_true, reduceCtorEq] at h
    · by_cases hc : s.isCached v
      · simp only [hs, hc, fits, if_true, dif_pos, Bool.false_eq_true, if_false,
          Path.cached.injEq] at h
        exact ⟨h ▸ hb, hs, hc⟩
      · simp only [hs, hc, Bool.false_eq_true, if_false, reduceCtorEq] at h
  · cases h
  · cases h
  · cases h

/-- A property of spaces that the parts of an access keep. -/
structure AccessKeeps (P : Space σ → Prop) : Prop where
  store : ∀ {s : Space σ} {w : Width} (a : HostAddress) (x : Word w), P s →
    P { s with memory := s.memory.store a x }
  readCached : ∀ {s : Space σ} {w : Width} {v : GuestAddress} (a : HostAddress)
    (fits : Cache.Fits v w), P s → P (s.readCached w v a fits).2
  writeCached : ∀ {s : Space σ} {w : Width} {v : GuestAddress} (a : HostAddress) (x : Word w)
    (fits : Cache.Fits v w), P s → P (s.writeCached v a x fits)
  readHandler : ∀ {s : Space σ} (id : HandlerId) (w : Width) (p : GuestAddress), P s →
    P (s.readHandler id w p).2
  writeHandler : ∀ {s : Space σ} {w : Width} (id : HandlerId) (p : GuestAddress) (x : Word w),
    P s → P (s.writeHandler id p x)
  raise : ∀ {s : Space σ} (e : GuestException), P s → P (s.raise e)

namespace AccessKeeps

variable {P : Space σ → Prop} {s : Space σ} (keeps : AccessKeeps P)

include keeps

/-- A load along a path keeps it, if it does so where it is split. -/
theorem readBy (h : P s) (p : Path w v) (split : p = .bytewise → P (s.readBytewise w v).2) :
    P (s.readBy p).2 := by
  cases p with
  | memory a => exact h
  | cached a fits => exact keeps.readCached a fits h
  | bytewise => exact split rfl
  | handler id p => exact keeps.readHandler id w p h
  | fault e => exact keeps.raise (e false) h

theorem writeBy (h : P s) (x : Word w) (p : Path w v)
    (split : p = .bytewise → P (s.writeBytes v x.bytes)) : P (s.writeBy x p) := by
  cases p with
  | memory a => exact keeps.store a x h
  | cached a fits => exact keeps.writeCached a x fits h
  | bytewise => exact split rfl
  | handler id p => exact keeps.writeHandler id p x h
  | fault e => exact keeps.raise (e true) h

theorem readByte (h : P s) (v : GuestAddress) : P (s.readByte v).2 := by
  rw [readByte_eq_readBy]
  exact keeps.readBy h _ fun hp => absurd hp (s.path_w8_ne_bytewise v)

theorem writeByte (h : P s) (v : GuestAddress) (x : Word .w8) : P (s.writeByte v x) := by
  rw [writeByte_eq_writeBy]
  exact keeps.writeBy h x _ fun hp => absurd hp (s.path_w8_ne_bytewise v)

theorem readBytes (h : P s) (v : GuestAddress) (n : Nat) : P (s.readBytes v n).2 := by
  induction n generalizing s v with
  | zero => exact h
  | succ n ih => exact ih (keeps.readByte h v) (v + 1)

theorem writeBytes (h : P s) (v : GuestAddress) (bs : List UInt8) : P (s.writeBytes v bs) := by
  induction bs generalizing s v with
  | nil => exact h
  | cons b bs ih => exact ih (keeps.writeByte h v (Word.ofBytes .w8 [b])) (v + 1)

theorem read (h : P s) (w : Width) (v : GuestAddress) : P (s.read w v).2 := by
  rw [read_eq_readBy]
  exact keeps.readBy h _ fun _ => keeps.readBytes h v w.bytes

theorem write (h : P s) (v : GuestAddress) (x : Word w) : P (s.write v x) := by
  rw [write_eq_writeBy]
  exact keeps.writeBy h x _ fun _ => keeps.writeBytes h v x.bytes

end AccessKeeps

end GuestMemory.Space
