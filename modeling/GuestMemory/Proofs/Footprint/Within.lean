import GuestMemory.Proofs.Access.Bytewise
import GuestMemory.Proofs.Footprint.Tags
import GuestMemory.Proofs.Space.Calls

/-!
Accesses stay in bounds. While the maps lead to pages of the arena and the tags agree with the
origins of the lines, no load, store or cache instruction touches anything else, and the tags that it
leaves agree with the origins that it leaves.
-/
namespace GuestMemory.Space

open Cache (Tracks tracks_nil setCount)

variable {σ : Type} {s t u : Space σ} {o : Origins} {ts ts' : List Touch}

/-- The maps lead to pages of the arena, and so do the tags, with the origins of their lines. -/
structure Bounded (s : Space σ) (o : Origins) : Prop where
  paved : s.maps.arena.IsPaved
  shows : s.maps.Shows s.maps.arena.Holds
  traced : s.cache.Traced s.maps.arena.Holds o

/-- What is done between two spaces keeps the maps and stays in bounds. -/
structure Within (s : Space σ) (o : Origins) (ts : List Touch) (t : Space σ) : Prop where
  maps : t.maps = s.maps
  tracks : Tracks s.maps o ts t.cache

theorem Within.trans (h : s.Within o ts t) (h' : t.Within (marks o ts) ts' u) :
    s.Within o (ts ++ ts') u := by
  obtain ⟨hm', hs', ht'⟩ := h'
  rw [h.maps] at hm' hs' ht'
  refine ⟨hm', stays_append.2 ⟨h.tracks.stays, hs'⟩, ?_⟩
  rw [marks_append]
  exact ht'

/-- What stays in bounds leaves a bounded space. -/
theorem Bounded.after (h : s.Bounded o) (hw : s.Within o ts t) : t.Bounded (marks o ts) := by
  obtain ⟨hm, -, ht⟩ := hw
  constructor
  · rw [hm]
    exact h.paved
  · rw [hm]
    exact h.shows
  · rw [hm]
    exact ht

@[simp] theorem cache_raise (s : Space σ) (e : GuestException) : (s.raise e).cache = s.cache := by
  rw [raise]
  split <;> rfl

theorem cache_storeBytes (s : Space σ) (v : GuestAddress) (bs : List UInt8) :
    (s.storeBytes v bs).cache = s.cache := by
  induction bs generalizing s v with
  | nil => rfl
  | cons b bs ih =>
    rw [storeBytes, ih]
    split <;> rfl

theorem cache_ramWrite {w : Width} (s : Space σ) (v : GuestAddress) (x : Word w) :
    (s.ramWrite v x).2.cache = s.cache := by
  rw [Space.ramWrite]
  split
  · split
    · exact s.cache_storeBytes v x.bytes
    · rfl
  · split <;> rfl

namespace Bounded

variable (h : s.Bounded o)

include h

theorem within_nil (hm : t.maps = s.maps) (hc : t.cache = s.cache) : s.Within o [] t :=
  ⟨hm, tracks_nil (hc ▸ h.traced)⟩

theorem direct {v : GuestAddress} {a : HostAddress} (ha : s.virtual.resolve v = .host a) {n : Nat}
    (hn : v.toNat % 4096 + n ≤ 4096) (isStore : Bool) :
    Tracks s.maps o [.direct isStore v a n] s.cache :=
  ⟨stays_singleton.2 (inBounds_direct h.paved h.shows ha hn isStore), h.traced⟩

/-- A load on the path of its address stays in bounds, if it does where it is split. -/
theorem readBy {w : Width} {v : GuestAddress} {p : Path w v} (hp : s.path w v = p)
    (split : p = .bytewise → Tracks s.maps o ts (s.readBytewise w v).2.cache) :
    Tracks s.maps o (s.pathTouches false ts p) (s.readBy p).2.cache := by
  cases p with
  | memory a =>
    obtain ⟨ha, hs, -⟩ := path_eq_memory hp
    exact h.direct ha (le_of_not_straddles hs) false
  | cached a fits =>
    exact Cache.tracks_read h.paved h.shows h.traced (path_eq_cached hp).1 s.memory _ fits
  | bytewise => exact split rfl
  | handler id p => exact tracks_nil h.traced
  | fault e =>
    rw [Space.readBy, cache_raise]
    exact tracks_nil h.traced

theorem writeBy {w : Width} {v : GuestAddress} {p : Path w v} (hp : s.path w v = p) (x : Word w)
    (split : p = .bytewise → Tracks s.maps o ts (s.writeBytes v x.bytes).cache) :
    Tracks s.maps o (s.pathTouches true ts p) (s.writeBy x p).cache := by
  cases p with
  | memory a =>
    obtain ⟨ha, hs, -⟩ := path_eq_memory hp
    exact h.direct ha (le_of_not_straddles hs) true
  | cached a fits =>
    exact Cache.tracks_write h.paved h.shows h.traced (path_eq_cached hp).1 s.memory _ x fits
  | bytewise => exact split rfl
  | handler id p => exact tracks_nil h.traced
  | fault e =>
    rw [Space.writeBy, cache_raise]
    exact tracks_nil h.traced

theorem readByte (v : GuestAddress) : s.Within o (s.byteTouches false v) (s.readByte v).2 := by
  refine ⟨maps_of_wiring (s.wiring_readByte v), ?_⟩
  rw [s.byteTouches_eq false v [], readByte_eq_readBy]
  exact h.readBy rfl fun hp => absurd hp (s.path_w8_ne_bytewise v)

theorem writeByte (v : GuestAddress) (x : Word .w8) :
    s.Within o (s.byteTouches true v) (s.writeByte v x) := by
  refine ⟨maps_of_wiring (s.wiring_writeByte v x), ?_⟩
  rw [s.byteTouches_eq true v [], writeByte_eq_writeBy]
  exact h.writeBy rfl x fun hp => absurd hp (s.path_w8_ne_bytewise v)

end Bounded

theorem Bounded.readBytes (h : s.Bounded o) (v : GuestAddress) (n : Nat) :
    s.Within o (s.readBytesTouches v n) (s.readBytes v n).2 := by
  induction n generalizing s o v with
  | zero => exact h.within_nil rfl rfl
  | succ n ih =>
    have hb := h.readByte v
    exact hb.trans (ih (h.after hb) (v + 1))

theorem Bounded.writeBytes (h : s.Bounded o) (v : GuestAddress) (bs : List UInt8) :
    s.Within o (s.writeBytesTouches v bs) (s.writeBytes v bs) := by
  induction bs generalizing s o v with
  | nil => exact h.within_nil rfl rfl
  | cons b bs ih =>
    have hb := h.writeByte v (Word.ofBytes .w8 [b])
    exact hb.trans (ih (h.after hb) (v + 1))

namespace Bounded

variable (h : s.Bounded o)

include h

theorem read (w : Width) (v : GuestAddress) : s.Within o (s.readTouches w v) (s.read w v).2 := by
  have hbytes : s.Within o (s.readBytesTouches v w.bytes) (s.readBytewise w v).2 :=
    h.readBytes v w.bytes
  refine ⟨maps_of_wiring (s.wiring_read w v), ?_⟩
  rw [readTouches_eq, read_eq_readBy]
  exact h.readBy rfl fun _ => hbytes.tracks

theorem write {w : Width} (v : GuestAddress) (x : Word w) :
    s.Within o (s.writeTouches v x) (s.write v x) := by
  have hbytes := h.writeBytes v x.bytes
  refine ⟨maps_of_wiring (s.wiring_write v x), ?_⟩
  rw [writeTouches_eq, write_eq_writeBy]
  exact h.writeBy rfl x fun _ => hbytes.tracks

theorem ramBytes (isStore : Bool) (v : GuestAddress) (n : Nat) :
    Tracks s.maps o (s.ramTouches isStore v n) s.cache := by
  induction n generalizing v with
  | zero => exact tracks_nil h.traced
  | succ n ih =>
    rw [ramTouches]
    cases hr : s.virtual.resolve v with
    | host a =>
      obtain ⟨hs, ht⟩ := ih (v + 1)
      exact ⟨⟨inBounds_direct h.paved h.shows hr (by omega) isStore, hs⟩, ht⟩
    | _ => exact tracks_nil h.traced

theorem ramRead (w : Width) (v : GuestAddress) :
    Tracks s.maps o (s.ramReadTouches w v) s.cache := by
  rw [ramReadTouches]
  by_cases hs : straddles v w = true
  · rw [if_pos hs]
    exact h.ramBytes false v w.bytes
  · rw [if_neg hs]
    cases hr : s.virtual.resolve v with
    | host a => exact h.direct hr (le_of_not_straddles hs) false
    | _ => exact tracks_nil h.traced

/-- A store past the cache stays in bounds. -/
theorem ramWrite {w : Width} (v : GuestAddress) (x : Word w) :
    s.Within o (s.ramWriteTouches w v) (s.ramWrite v x).2 := by
  refine ⟨maps_of_wiring (s.wiring_ramWrite v x), ?_⟩
  rw [cache_ramWrite, ramWriteTouches]
  by_cases hs : straddles v w = true
  · rw [if_pos hs]
    split
    · exact h.ramBytes true v w.bytes
    · exact tracks_nil h.traced
  · rw [if_neg hs]
    cases hr : s.virtual.resolve v with
    | host a => exact h.direct hr (le_of_not_straddles hs) true
    | _ => exact tracks_nil h.traced

/-- A cache operation stays in bounds. -/
theorem cacheOp (op : Cache.Op) (v : GuestAddress) (packed : UInt64) :
    s.Within o (s.cacheOpTouches op v) (s.cacheOp op v packed).2 := by
  refine ⟨maps_of_wiring (s.wiring_cacheOp op v packed), ?_⟩
  rw [cacheOpTouches, Space.cacheOp]
  by_cases hh : op.isHit = true
  · rw [if_pos hh, if_pos hh]
    cases s.virtual.resolve v with
    | host a => exact Cache.tracks_hitOp h.paved h.traced s.memory op v a
    | _ => exact tracks_nil h.traced
  · rw [if_neg hh, if_neg hh]
    exact Cache.tracks_indexOp h.paved h.traced s.memory op v packed

end Bounded

end GuestMemory.Space
