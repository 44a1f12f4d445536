import GuestMemory.Proofs.Footprint.CacheWork
import GuestMemory.Proofs.Space.Calls

/-!
Every call works on its touches: run on a space with another memory that has the same bytes where the
touches load, it answers the same, leaves the same space, and stores the same bytes where the touches
store, and no others.
-/
namespace GuestMemory.Space

variable {σ α β : Type} {s : Space σ} {ts ts' : List Touch} {op : Space σ → α × Space σ}

/-- An operation of a space as an action on its memory, with the rest of the space in its answer. -/
def act (s : Space σ) (op : Space σ → α × Space σ) (m : Memory) : (α × Space σ) × Memory :=
  let r := op { s with memory := m }
  ((r.1, { r.2 with memory := {} }), r.2.memory)

/-- An operation works on a list of touches, and on no other byte of memory. -/
def Works (s : Space σ) (ts : List Touch) (op : Space σ → α × Space σ) : Prop :=
  Confined ts (s.act op) s.memory

namespace Works

theorem map (h : s.Works ts op) (k : α → β) :
    s.Works ts fun t => (k (op t).1, (op t).2) :=
  Confined.map h fun x : α × Space σ => (k x.1, x.2)

theorem bind {g : α → Space σ → β × Space σ} (h : s.Works ts op)
    (hg : (op s).2.Works ts' (g (op s).1)) :
    s.Works (ts ++ ts') fun t => g (op t).1 (op t).2 :=
  Confined.seq (g := fun x : α × Space σ => x.2.act (g x.1)) h hg

theorem congr {op' : Space σ → α × Space σ} (h : s.Works ts op)
    (he : ∀ m : Memory, op' { s with memory := m } = op { s with memory := m }) :
    s.Works ts op' := by
  have ha : s.act op' = s.act op := by
    funext m
    rw [act, act, he]
  rwa [Works, ha]

/-- An operation that passes memory on works on nothing. -/
theorem of_ignores
    (h : ∀ m : Memory, op { s with memory := m } = ((op s).1, { (op s).2 with memory := m })) :
    s.Works [] op := by
  have he : s.act op = fun m => (((op s).1, { (op s).2 with memory := {} }), m) := by
    funext m
    rw [act, h]
  rw [Works, he]
  exact .pure _ _

/-- What `Works` says of a space and its memory. -/
theorem apply (h : s.Works ts op) {m : Memory} (hm : ∀ b, loads ts b → m.byte b = s.memory.byte b) :
    ∃ m', op { s with memory := m } = ((op s).1, { (op s).2 with memory := m' }) ∧
      (∀ b, stores ts b → m'.byte b = (op s).2.memory.byte b) ∧
        ∀ b, ¬stores ts b → m'.byte b = m.byte b := by
  obtain ⟨hx, hs, hk⟩ := h m hm
  refine ⟨(op { s with memory := m }).2.memory, ?_, hs, hk⟩
  obtain ⟨hanswer, hspace⟩ : (op { s with memory := m }).1 = (op s).1 ∧
      ({ (op { s with memory := m }).2 with memory := {} } : Space σ) =
        { (op s).2 with memory := {} } := Prod.mk.inj hx
  exact Prod.ext hanswer (congrArg
    (fun t : Space σ => { t with memory := (op { s with memory := m }).2.memory }) hspace)

end Works

theorem raise_memory (s : Space σ) (m : Memory) (e : GuestException) :
    ({ s with memory := m } : Space σ).raise e = { s.raise e with memory := m } := by
  simp only [raise]
  split <;> rfl

section

variable {v : GuestAddress} {a : HostAddress} {w : Width}

theorem works_readCached (s : Space σ) (w : Width) (v : GuestAddress) (a : HostAddress)
    (fits : Cache.Fits v w) :
    s.Works (s.cache.accessTouches w v a) (·.readCached w v a fits) := by
  have h := s.cache.confined_read w v a (s.tagAddress v) fits s.memory
  exact h.map fun x : Word w × Cache =>
    (x.1, ({ s with cache := x.2, memory := {} } : Space σ))

theorem works_writeCached (s : Space σ) (v : GuestAddress) (a : HostAddress) (x : Word w)
    (fits : Cache.Fits v w) :
    s.Works (s.cache.accessTouches w v a) fun t => ((), t.writeCached v a x fits) := by
  have h := s.cache.confined_write v a (s.tagAddress v) x fits s.memory
  exact h.map fun c : Cache => ((), ({ s with cache := c, memory := {} } : Space σ))

theorem works_load (s : Space σ) (w : Width) (v : GuestAddress) (a : HostAddress) :
    s.Works [.direct false v a w.bytes] fun t => (t.memory.load w a, t) := by
  have hw := w.bytes_le
  have h := Confined.load v a (n := w.bytes) (by omega) s.memory
  exact h.map fun bs : List UInt8 => (Word.ofBytes w bs, ({ s with memory := {} } : Space σ))

theorem works_store (s : Space σ) (v : GuestAddress) (a : HostAddress) (x : Word w) :
    s.Works [.direct true v a w.bytes] fun t =>
      ((), { t with memory := t.memory.store a x }) := by
  have hw := w.bytes_le
  have hl : x.bytes.length = w.bytes := Word.length_bytes x
  have h := Confined.store (.direct true v a w.bytes) rfl hl (by omega) s.memory
  exact h.map fun _ => ((), ({ s with memory := {} } : Space σ))

/-- A load works on the touches of its path. -/
theorem works_readBy (s : Space σ) (p : Path w v)
    (split : p = .bytewise → s.Works ts (·.readBytewise w v)) :
    s.Works (s.pathTouches false ts p) (·.readBy p) := by
  cases p with
  | memory a => exact s.works_load w v a
  | cached a fits => exact s.works_readCached w v a fits
  | bytewise => exact split rfl
  | handler id p => exact .of_ignores fun m => rfl
  | fault e => exact .of_ignores fun m => congrArg _ (s.raise_memory m (e false))

theorem works_writeBy (s : Space σ) (x : Word w) (p : Path w v)
    (split : p = .bytewise → s.Works ts fun t => ((), t.writeBytes v x.bytes)) :
    s.Works (s.pathTouches true ts p) fun t => ((), t.writeBy x p) := by
  cases p with
  | memory a => exact s.works_store v a x
  | cached a fits => exact s.works_writeCached v a x fits
  | bytewise => exact split rfl
  | handler id p => exact .of_ignores fun m => rfl
  | fault e => exact .of_ignores fun m => congrArg _ (s.raise_memory m (e true))

theorem works_readByte (s : Space σ) (v : GuestAddress) :
    s.Works (s.byteTouches false v) (·.readByte v) := by
  rw [s.byteTouches_eq false v []]
  refine (s.works_readBy (s.path .w8 v) fun h => ?_).congr fun m =>
    readByte_eq_readBy { s with memory := m } v
  exact absurd h (s.path_w8_ne_bytewise v)

theorem works_writeByte (s : Space σ) (v : GuestAddress) (x : Word .w8) :
    s.Works (s.byteTouches true v) fun t => ((), t.writeByte v x) := by
  rw [s.byteTouches_eq true v []]
  refine (s.works_writeBy x (s.path .w8 v) fun h => ?_).congr fun m =>
    congrArg (Prod.mk ()) (writeByte_eq_writeBy { s with memory := m } v x)
  exact absurd h (s.path_w8_ne_bytewise v)

theorem works_readBytes (s : Space σ) (v : GuestAddress) (n : Nat) :
    s.Works (s.readBytesTouches v n) (·.readBytes v n) := by
  induction n generalizing s v with
  | zero => exact .of_ignores fun m => rfl
  | succ n ih =>
    have hrest := (ih (s.readByte v).2 (v + 1)).map fun bs => (s.readByte v).1.bytes ++ bs
    exact (s.works_readByte v).bind (g := fun b t =>
      (b.bytes ++ (t.readBytes (v + 1) n).1, (t.readBytes (v + 1) n).2)) hrest

theorem works_writeBytes (s : Space σ) (v : GuestAddress) (bs : List UInt8) :
    s.Works (s.writeBytesTouches v bs) fun t => ((), t.writeBytes v bs) := by
  induction bs generalizing s v with
  | nil => exact .of_ignores fun m => rfl
  | cons b bs ih =>
    exact (s.works_writeByte v _).bind (g := fun _ t => ((), t.writeBytes (v + 1) bs))
      (ih (s.writeByte v (Word.ofBytes .w8 [b])) (v + 1))

theorem works_read (s : Space σ) (w : Width) (v : GuestAddress) :
    s.Works (s.readTouches w v) (·.read w v) := by
  have hbytes : s.Works (s.readBytesTouches v w.bytes) (·.readBytewise w v) :=
    (s.works_readBytes v w.bytes).map (Word.ofBytes w)
  rw [readTouches_eq]
  exact (s.works_readBy (s.path w v) fun _ => hbytes).congr fun m =>
    read_eq_readBy { s with memory := m } w v

theorem works_write (s : Space σ) (v : GuestAddress) (x : Word w) :
    s.Works (s.writeTouches v x) fun t => ((), t.write v x) := by
  have hbytes := s.works_writeBytes v x.bytes
  rw [writeTouches_eq]
  exact (s.works_writeBy x (s.path w v) fun _ => hbytes).congr fun m =>
    congrArg (Prod.mk ()) (write_eq_writeBy { s with memory := m } v x)

end

theorem works_byte (s : Space σ) (v : GuestAddress) (a : HostAddress) :
    s.Works [.direct false v a 1] fun t => (t.memory.byte a, t) := by
  have h := Confined.load v a (n := 1) (by decide) s.memory
  exact h.map fun bs : List UInt8 => (bs.headD 0, ({ s with memory := {} } : Space σ))

theorem works_memoryBytes? (s : Space σ) (v : GuestAddress) (n : Nat) :
    s.Works (s.ramTouches false v n) fun t => (t.memoryBytes? v n, t) := by
  induction n generalizing v with
  | zero => exact .of_ignores fun m => rfl
  | succ n ih =>
    rw [ramTouches]
    cases hr : s.virtual.resolve v with
    | host a =>
      have hrest := (ih (v + 1)).map (Option.map (s.memory.byte a :: ·))
      refine ((s.works_byte v a).bind (g := fun b t =>
        ((t.memoryBytes? (v + 1) n).map (b :: ·), t)) hrest).congr fun m => ?_
      simp only [memoryBytes?, hr]
    | _ => exact .of_ignores fun m => by simp only [memoryBytes?, hr]

theorem works_ramRead? (s : Space σ) (w : Width) (v : GuestAddress) :
    s.Works (s.ramReadTouches w v) fun t => (t.ramRead? w v, t) := by
  rw [ramReadTouches]
  by_cases hs : straddles v w = true
  · rw [if_pos hs]
    refine ((s.works_memoryBytes? v w.bytes).map (Option.map (Word.ofBytes w))).congr fun m => ?_
    simp only [ramRead?, hs, if_true]
  · rw [if_neg hs]
    cases hr : s.virtual.resolve v with
    | host a =>
      refine ((s.works_load w v a).map some).congr fun m => ?_
      simp only [ramRead?, hs, hr, Bool.false_eq_true, if_false]
    | _ =>
      refine .of_ignores fun m => ?_
      simp only [ramRead?, hs, hr, Bool.false_eq_true, if_false]

/-- Which bytes are memory depends on the map alone. -/
theorem isMemory_congr {s t : Space σ} (h : t.virtual = s.virtual) (v : GuestAddress) (n : Nat) :
    t.isMemory v n = s.isMemory v n := by
  induction n generalizing v with
  | zero => rfl
  | succ n ih => simp only [isMemory, h, ih]

theorem ramTouches_congr {s t : Space σ} (h : t.virtual = s.virtual) (isStore : Bool)
    (v : GuestAddress) (n : Nat) : t.ramTouches isStore v n = s.ramTouches isStore v n := by
  induction n generalizing v with
  | zero => rfl
  | succ n ih => simp only [ramTouches, h, ih]

/-- Bytes that are stored past the cache touch where they are kept. -/
theorem works_storeBytes (s : Space σ) (v : GuestAddress) (bs : List UInt8)
    (h : s.isMemory v bs.length = true) :
    s.Works (s.ramTouches true v bs.length) fun t => ((), t.storeBytes v bs) := by
  induction bs generalizing s v with
  | nil => exact .of_ignores fun m => rfl
  | cons b bs ih =>
    rw [List.length_cons, isMemory] at h
    rw [List.length_cons, ramTouches]
    cases hr : s.virtual.resolve v with
    | host a =>
      simp only [hr] at h
      have hb : (Word.ofBytes .w8 [b]).bytes = [b] := Word.bytes_ofBytes rfl
      have hstore := s.works_store v a (Word.ofBytes .w8 [b])
      generalize ht : ({ s with memory := s.memory.store a (Word.ofBytes .w8 [b]) } : Space σ) = t
      have hv : t.virtual = s.virtual := by rw [← ht]
      have hrest := ih t (v + 1) ((isMemory_congr hv (v + 1) bs.length).trans h)
      rw [ramTouches_congr hv] at hrest
      rw [← ht] at hrest
      refine (hstore.bind (g := fun _ t => ((), t.storeBytes (v + 1) bs)) hrest).congr fun m => ?_
      simp only [storeBytes, hr, Memory.store, hb]
      rfl
    | _ => simp [hr] at h

/-- A store past the cache works on its touches. -/
theorem works_ramWrite {w : Width} (s : Space σ) (v : GuestAddress) (x : Word w) :
    s.Works (s.ramWriteTouches w v) (·.ramWrite v x) := by
  have hv : ∀ m : Memory,
      ({ s with memory := m } : Space σ).isMemory v w.bytes = s.isMemory v w.bytes :=
    fun m => isMemory_congr (s := s) (t := { s with memory := m }) rfl v w.bytes
  rw [ramWriteTouches]
  by_cases hs : straddles v w = true
  · rw [if_pos hs]
    by_cases hm : s.isMemory v w.bytes = true
    · rw [if_pos hm]
      have hl : x.bytes.length = w.bytes := Word.length_bytes x
      have h := s.works_storeBytes v x.bytes (hl ▸ hm)
      rw [hl] at h
      refine (h.map fun _ => true).congr fun m => ?_
      simp only [ramWrite, hs, hv m, hm, if_true]
    · rw [if_neg hm]
      refine .of_ignores fun m => ?_
      simp only [ramWrite, hs, hv m, hm, if_true, Bool.false_eq_true, if_false]
  · rw [if_neg hs]
    cases hr : s.virtual.resolve v with
    | host a =>
      refine ((s.works_store v a x).map fun _ => true).congr fun m => ?_
      simp only [ramWrite, hs, hr, Bool.false_eq_true, if_false]
    | _ =>
      refine .of_ignores fun m => ?_
      simp only [ramWrite, hs, hr, Bool.false_eq_true, if_false]

/-- A cache operation works on its touches. -/
theorem works_cacheOp (s : Space σ) (op : Cache.Op) (v : GuestAddress) (packed : UInt64) :
    s.Works (s.cacheOpTouches op v) (·.cacheOp op v packed) := by
  rw [cacheOpTouches]
  by_cases hh : op.isHit = true
  · rw [if_pos hh]
    cases hr : s.virtual.resolve v with
    | host a =>
      have h : s.Works (s.cache.hitOpTouches op v a) fun t =>
          ((none : Option UInt64), { t with
            cache := (t.cache.hitOp t.memory op v a).1
            memory := (t.cache.hitOp t.memory op v a).2 }) :=
        (s.cache.confined_hitOp op v a s.memory).map fun c : Cache =>
          ((none : Option UInt64), ({ s with cache := c, memory := {} } : Space σ))
      refine h.congr fun m => ?_
      simp only [cacheOp, hh, hr, if_true]
    | _ =>
      refine .of_ignores fun m => ?_
      simp only [cacheOp, hh, hr, if_true]
  · rw [if_neg hh]
    have h : s.Works (s.cache.indexOpTouches op v) fun t =>
        ((t.cache.indexOp t.memory op v packed).1, { t with
          cache := (t.cache.indexOp t.memory op v packed).2.1
          memory := (t.cache.indexOp t.memory op v packed).2.2 }) :=
      (s.cache.confined_indexOp op v packed s.memory).map fun x : Option UInt64 × Cache =>
        (x.1, ({ s with cache := x.2, memory := {} } : Space σ))
    refine h.congr fun m => ?_
    simp only [cacheOp, hh, Bool.false_eq_true, if_false]

/-- Calls that work on memory only where the maps and the cache lead. -/
def Command.IsLed : Command σ → Prop
  | .loadBytes .. | .install _ => False
  | _ => True

/-- Quiet calls but loads of plain memory pass memory on. -/
theorem perform_memory (s : Space σ) {c : Command σ} (h : c.IsQuiet) (hr : ∀ w v, c ≠ .ramRead w v)
    (m : Memory) :
    ({ s with memory := m } : Space σ).perform c =
      ((s.perform c).1, { (s.perform c).2 with memory := m }) := by
  have hc : (s.perform c).2.cache = s.cache := congrArg Prod.fst (backing_perform h)
  refine (s.perform_withBacking s.cache m h hr).trans ?_
  rw [← hc]
  rfl

/-- Every call works on its touches. -/
theorem works_perform (s : Space σ) {c : Command σ} (h : c.IsLed) :
    s.Works (s.touches c) (·.perform c) := by
  cases c with
  | read w v => exact (s.works_read w v).map fun x => (.word w x : Answer σ)
  | write w v x => exact (s.works_write v x).map fun _ => (.done : Answer σ)
  | ramRead w v => exact (s.works_ramRead? w v).map fun x => (.maybeWord w x : Answer σ)
  | ramWrite w v x => exact (s.works_ramWrite v x).map fun b => (.stored b : Answer σ)
  | cacheOp op v packed => exact (s.works_cacheOp op v packed).map fun tag => (.tag tag : Answer σ)
  | reset =>
    refine .of_ignores fun m => ?_
    simp only [perform, reset]
    cases s.window with
    | none => rfl
    | some w =>
      simp only
      generalize Window.clear _ = cleared
      obtain ⟨_ | e, w'⟩ := cleared <;> rfl
  | shutdown =>
    obtain ⟨_, _, _, _, _, _, _, _, window, _, _, _⟩ := s
    cases window <;> exact .of_ignores fun m => rfl
  | loadBytes | install => exact absurd h id
  | _ => exact .of_ignores (s.perform_memory trivial (by rintro _ _ ⟨⟩))

end GuestMemory.Space
