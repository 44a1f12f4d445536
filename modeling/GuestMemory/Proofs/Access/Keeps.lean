import GuestMemory.Proofs.Footprint.Within
import GuestMemory.Proofs.Space.Install

/-!
Properties of the cache alone. What its own operations keep, every call keeps: a call works on the
cache through them, leaves it alone or empties it.
-/
namespace GuestMemory

/-- A property of the empty cache that loads, stores and the operations on a line that is held keep. -/
structure Cache.IsKept (P : Cache → Prop) : Prop where
  empty : P {}
  read : ∀ {c : Cache} (m : Memory) (w : Width) (v : GuestAddress) (host : HostAddress)
    (phys : GuestAddress) (fits : Cache.Fits v w), P c → P (c.read m w v host phys fits).2.1
  write : ∀ {c : Cache} (m : Memory) {w : Width} (v : GuestAddress) (host : HostAddress)
    (phys : GuestAddress) (x : Word w) (fits : Cache.Fits v w),
      P c → P (c.write m v host phys x fits).1
  hitOp : ∀ {c : Cache} (m : Memory) (op : Cache.Op) (v : GuestAddress) (host : HostAddress),
    P c → P (c.hitOp m op v host).1

namespace Space

variable {σ : Type} {s : Space σ} {w : Width} {v : GuestAddress} {P : Cache → Prop}
  (kept : Cache.IsKept P)

include kept

/-- Such a property of the cache comes through every access. -/
theorem accessKeeps_cache : AccessKeeps fun s : Space σ => P s.cache where
  store _ _ h := h
  readCached a fits h := kept.read _ _ _ a _ fits h
  writeCached a x fits h := kept.write _ _ a _ x fits h
  readHandler _ _ _ h := h
  writeHandler _ _ _ h := h
  raise e h := by
    rw [cache_raise]
    exact h

/-- A call keeps the property, if its operation by set and way does. -/
theorem keeps_perform (h : P s.cache) {c : Command σ}
    (index : ∀ op v packed, c = .cacheOp op v packed →
      P (s.cache.indexOp s.memory op v packed).2.1) : P (s.perform c).2.cache := by
  -- calls about the maps, the devices and the window have nothing to do with the cache
  have hquiet : ∀ (t : Space σ) (d : Command σ), d.IsQuiet → P t.cache →
      P (t.perform d).2.cache := by
    intro t d hd ht
    have hc : (t.perform d).2.cache = t.cache := congrArg Prod.fst (backing_perform hd)
    rwa [hc]
  cases c with
  | read w v => exact (accessKeeps_cache kept).read h w v
  | write w v x => exact (accessKeeps_cache kept).write h v x
  | ramWrite w v x =>
    have hc : (s.ramWrite v x).2.cache = s.cache := s.cache_ramWrite v x
    exact hc.symm ▸ h
  | loadBytes a bytes => exact h
  | cacheOp op v packed =>
    rw [perform, Space.cacheOp]
    by_cases hh : op.isHit = true
    · rw [if_pos hh]
      cases s.virtual.resolve v with
      | host a => exact kept.hitOp s.memory op v a h
      | _ => exact h
    · rw [if_neg hh]
      exact index op v packed rfl
  | install hardware =>
    exact perform_install (P := fun t => P t.cache) (fun t d hd => hquiet t d hd.isQuiet) h
  | reset =>
    obtain ⟨window, journal, he⟩ := s.exists_reset_eq
    rw [perform, he]
    exact kept.empty
  | shutdown =>
    rw [perform, shutdown]
    cases s.window <;> exact kept.empty
  | _ => exact hquiet s _ trivial h

/-- A history keeps the property, if the operations by set and way that it may make do. -/
theorem Reachable.keeps_cache {allowed : Space σ → Command σ → Prop} (h : Reachable allowed s)
    (index : ∀ (t : Space σ) op v packed, P t.cache → allowed t (.cacheOp op v packed) →
      P (t.cache.indexOp t.memory op v packed).2.1) : P s.cache := by
  refine h.keeps (P := fun t => P t.cache) (fun t fresh => ?_) fun t c ht ha => ?_
  · obtain ⟨place, settings, level, routed, kernel, hc⟩ := fresh
    obtain ⟨arena, journal, -, rfl⟩ := create_eq_ok hc
    exact kept.empty
  · refine keeps_perform kept (s := t.drained) ht fun op v packed hc => ?_
    exact index t op v packed ht (hc ▸ ha)

end Space

end GuestMemory
