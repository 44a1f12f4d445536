import GuestMemory.Proofs.X64.Runs

/-!
The frame of a thunk. From its top down it has the return address, the frame pointer, 16 bytes for a
value, the general registers and then the vector registers that are live. Offsets are counted from the
end of the stack, `n` bytes of which are left to the function that is called. The thunk fills its
frame, works below it, and takes the registers back from it.
-/
namespace GuestMemory.X64

variable {σ : Type} {t t₀ : Machine σ} {d : Deferred} {lo : HostAddress} {n : Nat}

namespace Emitter

def enter (d : Deferred) : List Instruction :=
  [.pushShort rbp, .mov64 rbp rsp, .subRsp scratchSize]
    ++ (savedGprs d).map .push
    ++ (if (savedVectors d).isEmpty then [] else [.subRsp (16 * (savedVectors d).length)])
    ++ (savedVectors d).zipIdx.map fun (x, i) => .vectorStoreRsp x (16 * i)

def approach (e : Emitter) (d : Deferred) : List Instruction :=
  let entry := if d.access.isLoad then e.entries.read d.access.width
    else e.entries.write d.access.width
  [.movImmediate rdi e.entries.space, .alignRsp, .movImmediate rax entry]

def leave (d : Deferred) : List Instruction :=
  let gprBytes := 8 * (savedGprs d).length
  let vectorBytes := 16 * (savedVectors d).length
  ((savedVectors d).zipIdx.map
      fun (x, i) => .vectorLoadRbp x (16 * i - (scratchSize + gprBytes + vectorBytes)))
    ++ [.leaRbp rsp (-(scratchSize + gprBytes))]
    ++ (savedGprs d).reverse.map .pop
    ++ [.mov64 rsp rbp, .popShort rbp]

theorem thunk_eq (e : Emitter) (d : Deferred) :
    e.thunk d = (enter d ++ (arguments d ++ e.approach d)) ++
      (.callRax :: ((result d ++ leave d) ++ [.ret])) := by
  simp only [thunk, enter, approach, leave, List.append_assoc, List.cons_append, List.nil_append]

theorem mem_savedGprs {r : Reg} (h : r ∈ savedGprs d) : isCallerSaved r = true := by
  simp only [savedGprs, List.mem_filter, Bool.and_eq_true] at h
  exact h.2.1.1

theorem rsp_not_mem_savedGprs (d : Deferred) : rsp ∉ savedGprs d :=
  fun h => absurd (mem_savedGprs h) (by decide)

theorem rbp_not_mem_savedGprs (d : Deferred) : rbp ∉ savedGprs d :=
  fun h => absurd (mem_savedGprs h) (by decide)

theorem length_savedGprs (d : Deferred) : (savedGprs d).length ≤ 9 := by
  have hle : (savedGprs d).length ≤ (List.finRange 16).countP isCallerSaved := by
    rw [savedGprs, ← List.countP_eq_length_filter]
    refine List.countP_mono_left fun r _ hr => ?_
    simp only [Bool.and_eq_true] at hr
    exact hr.1.1
  exact Nat.le_trans hle (by decide)

theorem length_savedVectors (d : Deferred) : (savedVectors d).length ≤ 16 :=
  Nat.le_trans (List.length_filter_le _ _) (by decide)

end Emitter

open Emitter

def Deferred.gprsAt (d : Deferred) (n : Nat) : Nat := n + 352 - 8 * (savedGprs d).length

/-- Offset of the lowest vector register; below it is free. -/
def Deferred.vectorsAt (d : Deferred) (n : Nat) : Nat :=
  d.gprsAt n - 16 * (savedVectors d).length

theorem Deferred.offsets (d : Deferred) (n : Nat) :
    d.gprsAt n + 8 * (savedGprs d).length = n + 352 ∧
      d.vectorsAt n + 16 * (savedVectors d).length = d.gprsAt n ∧ n + 24 ≤ d.vectorsAt n := by
  have hg := length_savedGprs d
  have hv := length_savedVectors d
  rw [vectorsAt, gprsAt]
  omega

/-- The frame holds the return address and what is live of the registers of `t`. -/
structure Saved (d : Deferred) (lo : HostAddress) (n : Nat) (back : HostAddress) (t : Machine σ)
    (m : Memory) : Prop where
  back : m.load .w64 (lo + UInt64.ofNat (n + 376)) = Machine.gprWord back
  frame : m.load .w64 (lo + UInt64.ofNat (n + 368)) = Machine.gprWord (t.gpr rbp)
  gprs : m.Lays lo (d.gprsAt n) ((savedGprs d).reverse.map fun r => Machine.gprWord (t.gpr r))
  vectors : m.Lays lo (d.vectorsAt n)
    ((savedVectors d).map fun x => Machine.vectorWord (t.vector x))

theorem Saved.congr {back : HostAddress} {m : Memory} (h : Saved d lo n back t m)
    (hbp : t₀.gpr rbp = t.gpr rbp) (hgpr : ∀ r ∈ savedGprs d, t₀.gpr r = t.gpr r)
    (hvector : t₀.vector = t.vector) : Saved d lo n back t₀ m := by
  refine ⟨h.back, hbp ▸ h.frame, ?_, hvector ▸ h.vectors⟩
  rw [List.map_congr_left fun r hr => congrArg Machine.gprWord (hgpr r (List.mem_reverse.1 hr))]
  exact h.gprs

/-- What happens below the frame, in the place for a value or above the frame does not touch what was
saved. -/
theorem Saved.of_differs {back : HostAddress} {m m' : Memory} {i j : Nat}
    (h : Saved d lo n back t m) (hm : Memory.Differs lo i j m m')
    (hn : n + frameSize ≤ 2 ^ 64)
    (hij : j ≤ d.vectorsAt n ∨ n + 352 ≤ i ∧ j ≤ n + 368 ∨ n + frameSize ≤ i) :
    Saved d lo n back t m' := by
  obtain ⟨hg, hv, -⟩ := d.offsets n
  have hf : frameSize = 384 := rfl
  refine ⟨?_, ?_, ?_, ?_⟩
  · exact (hm.load (by simp only [Width.bytes_w64]; omega)
      (by simp only [Width.bytes_w64]; omega)).trans h.back
  · exact (hm.load (by simp only [Width.bytes_w64]; omega)
      (by simp only [Width.bytes_w64]; omega)).trans h.frame
  · exact hm.lays h.gprs
      (by simp only [Width.bytes_w64, List.length_map, List.length_reverse]; omega)
      (by simp only [Width.bytes_w64, List.length_map, List.length_reverse]; omega)
  · exact hm.lays h.vectors
      (by simp only [Width.bytes_w128, List.length_map]; omega)
      (by simp only [Width.bytes_w128, List.length_map]; omega)

/-- The machine is in a thunk for `m`: its space is `s` but for the frame, which has been filled. -/
structure Framed (d : Deferred) (lo : HostAddress) (n : Nat) (back : HostAddress) (m : Machine σ)
    (s : Space σ) (t : Machine σ) : Prop where
  room : t.HasRoom lo (n + frameSize)
  space : t.space = { s with memory := t.space.memory }
  differs : Memory.Differs lo 0 (n + frameSize) s.memory t.space.memory
  saved : Saved d lo n back m t.space.memory

namespace Framed

variable {back : HostAddress} {m u : Machine σ} {s : Space σ}

theorem congr (h : Framed d lo n back m s t) (hu : u.space = t.space) :
    Framed d lo n back m s u := by
  refine ⟨h.room.of_window (by rw [hu]), ?_, ?_, ?_⟩ <;> rw [hu]
  · exact h.space
  · exact h.differs
  · exact h.saved

/-- Stores in the place for a value or below the frame leave it. -/
theorem withMemory (h : Framed d lo n back m s t) {memory : Memory} {i j : Nat}
    (hm : Memory.Differs lo i j t.space.memory memory)
    (hij : j ≤ d.vectorsAt n ∨ n + 352 ≤ i ∧ j ≤ n + 368) :
    Framed d lo n back m s (t.withMemory memory) := by
  have hj : j ≤ n + frameSize := by
    have hf : frameSize = 384 := rfl
    obtain ⟨hg, hv, -⟩ := d.offsets n
    omega
  refine ⟨h.room.of_window rfl, ?_, h.differs.trans (hm.mono (Nat.zero_le _) hj),
    h.saved.of_differs hm h.room.fits (hij.imp_right .inl)⟩
  rw [Machine.withMemory, h.space]

end Framed

namespace Machine

/-- The frame pointer, and a place for a value below it. -/
theorem runs_frame (room : t.HasRoom lo (n + frameSize))
    (hsp : t.gpr rsp = lo + UInt64.ofNat (n + 376)) :
    ∃ memory, t.runs [.pushShort rbp, .mov64 rbp rsp, .subRsp scratchSize] =
        .ok (((t.setGpr rbp (lo + UInt64.ofNat (n + 368))).setGpr rsp
          (lo + UInt64.ofNat (n + 352))).withMemory memory) ∧
      Memory.Differs lo (n + 368) (n + 376) t.space.memory memory ∧
      memory.load .w64 (lo + UInt64.ofNat (n + 368)) = gprWord (t.gpr rbp) := by
  have hf : frameSize = 384 := rfl
  obtain ⟨m, hpush, hd, hframe⟩ := push_of_room (k := n + 368) room hsp (by omega) (t.gpr rbp)
  have hsub : lo + UInt64.ofNat (n + 368) - UInt64.ofNat scratchSize = lo + UInt64.ofNat (n + 352) :=
    sub_ofNat lo (Nat.le_add_left 16 (n + 352))
  have hne : rsp ≠ rbp := by decide
  refine ⟨m, ?_, hd, hframe⟩
  rw [runs_cons (show t.step (.pushShort rbp) = _ from hpush), runs_cons (show step _
    (.mov64 rbp rsp) = .ok _ from rfl), runs_cons (show step _ (.subRsp _) = .ok _ from rfl)]
  simp only [setGpr, withMemory, put_same, put_other _ _ hne, hsub, put_put_put]
  rfl

/-- The thunk begins by filling its frame. -/
theorem runs_enter {back : HostAddress} (room : t.HasRoom lo (n + frameSize))
    (hsp : t.gpr rsp = lo + UInt64.ofNat (n + 376))
    (hback : t.space.memory.load .w64 (lo + UInt64.ofNat (n + 376)) = gprWord back) :
    ∃ memory, t.runs (enter d) =
        .ok (((t.setGpr rbp (lo + UInt64.ofNat (n + 368))).setGpr rsp
          (lo + UInt64.ofNat (d.vectorsAt n))).withMemory memory) ∧
      Memory.Differs lo 0 (n + 376) t.space.memory memory ∧ Saved d lo n back t memory := by
  obtain ⟨hg, hv, hlow⟩ := d.offsets n
  have hf : frameSize = 384 := rfl
  obtain ⟨m₁, hframe, hd₁, hbp⟩ := runs_frame room hsp
  generalize hu : t.setGpr rbp (lo + UInt64.ofNat (n + 368)) = u at hframe ⊢
  have room₁ : u.HasRoom lo (n + frameSize) := room.of_window (by rw [← hu, space_setGpr])
  have hlt := room.fits
  obtain ⟨m₂, hpush, hd₂, hgprs⟩ := runs_push
    (t := (u.setGpr rsp (lo + UInt64.ofNat (n + 352))).withMemory m₁) (room₁.of_window rfl)
    (rsp_not_mem_savedGprs d) (k := d.gprsAt n) (by rw [hg, gpr_withMemory, gpr_setGpr_same])
    (by omega)
  rw [setGpr_withMemory, setGpr_setGpr, withMemory_withMemory] at hpush
  have hlower : ((u.setGpr rsp (lo + UInt64.ofNat (d.gprsAt n))).withMemory m₂).runs
      (if (savedVectors d).isEmpty then [] else [.subRsp (16 * (savedVectors d).length)]) =
        .ok ((u.setGpr rsp (lo + UInt64.ofNat (d.vectorsAt n))).withMemory m₂) := by
    split
    · rename_i he
      have hlen : (savedVectors d).length = 0 := by simpa using he
      rw [runs_nil, show d.vectorsAt n = d.gprsAt n by omega]
    · have hsub := sub_ofNat lo (i := d.gprsAt n) (j := 16 * (savedVectors d).length) (by omega)
      rw [show d.gprsAt n - 16 * (savedVectors d).length = d.vectorsAt n from rfl] at hsub
      rw [runs_cons (show step _ (.subRsp _) = .ok _ from rfl), runs_nil]
      simp only [gpr_withMemory, gpr_setGpr_same, setGpr_withMemory, setGpr_setGpr, hsub]
  have hfits : d.vectorsAt n + 16 * (0 + (savedVectors d).length) ≤ n + frameSize := by omega
  obtain ⟨m₃, hstore, hd₃, hvectors⟩ := runs_vectorStoreRsp
    (t := (u.setGpr rsp (lo + UInt64.ofNat (d.vectorsAt n))).withMemory m₂) (room₁.of_window rfl)
    (by rw [gpr_withMemory, gpr_setGpr_same]) hfits
  have hd₂₃ : Memory.Differs lo 0 (n + 352) m₁ m₃ :=
    (hd₂.mono (Nat.zero_le _) (by omega)).trans (hd₃.mono (Nat.zero_le _) (by omega))
  have hd : Memory.Differs lo 0 (n + 376) t.space.memory m₃ :=
    (hd₁.mono (Nat.zero_le _) (Nat.le_refl _)).trans (hd₂₃.mono (Nat.le_refl _) (by omega))
  refine ⟨m₃, ?_, ?_, ?_⟩
  · rw [enter, List.append_assoc, List.append_assoc, runs_append hframe, runs_append hpush,
      runs_append hlower]
    exact hstore
  · exact hd
  · have hkeep : ∀ r ∈ (savedGprs d).reverse,
        ((u.setGpr rsp (lo + UInt64.ofNat (n + 352))).withMemory m₁).gpr r = t.gpr r := by
      intro r hr
      have hsaved := List.mem_reverse.1 hr
      rw [gpr_withMemory,
        gpr_setGpr_other _ _ (ne_of_mem_of_not_mem hsaved (rsp_not_mem_savedGprs d)), ← hu,
        gpr_setGpr_other _ _ (ne_of_mem_of_not_mem hsaved (rbp_not_mem_savedGprs d))]
    rw [List.map_congr_left fun r hr => congrArg gprWord (hkeep r hr)] at hgprs
    refine ⟨?_, ?_, ?_, ?_⟩
    · exact (hd.load (w := .w64) (by rw [Width.bytes_w64]; omega) (.inr (Nat.le_refl _))).trans
        hback
    · exact (hd₂₃.load (w := .w64) (by rw [Width.bytes_w64]; omega) (.inr (by omega))).trans hbp
    · exact hd₃.lays hgprs
        (by simp only [Width.bytes_w64, List.length_map, List.length_reverse]; omega)
        (.inr (by omega))
    · rw [← hu] at hvectors
      exact hvectors

/-- The frame of a thunk that `m` has called is filled before the access is made, and the other
registers are still those of `m`. -/
theorem framed_enter {back : HostAddress} {m : Machine σ} {memory : Memory}
    (room : m.HasRoom lo (n + frameSize))
    (hdiffers : Memory.Differs lo (n + 376) (n + frameSize) m.space.memory memory)
    (hback : memory.load .w64 (lo + UInt64.ofNat (n + 376)) = gprWord back) :
    ∃ t, ((m.setGpr rsp (lo + UInt64.ofNat (n + 376))).withMemory memory).runs (enter d) = .ok t ∧
      Framed d lo n back m m.space t ∧ t.gpr rsp = lo + UInt64.ofNat (d.vectorsAt n) ∧
      t.gpr rbp = lo + UInt64.ofNat (n + 368) ∧ (∀ r, r ≠ rsp → r ≠ rbp → t.gpr r = m.gpr r) ∧
      t.vector = m.vector := by
  have hf : frameSize = 384 := rfl
  generalize ht₀ : (m.setGpr rsp (lo + UInt64.ofNat (n + 376))).withMemory memory = t₀
  have hgpr₀ : ∀ r, r ≠ rsp → t₀.gpr r = m.gpr r := fun r hr => by
    rw [← ht₀, gpr_withMemory, gpr_setGpr_other _ _ hr]
  have hvector₀ : t₀.vector = m.vector := by
    rw [← ht₀]
    rfl
  have room₀ : t₀.HasRoom lo (n + frameSize) := by
    rw [← ht₀]
    exact room.of_window rfl
  have hspace₀ : t₀.space = { m.space with memory } := by
    rw [← ht₀]
    rfl
  obtain ⟨m₁, henter, hd, hsaved⟩ := runs_enter (d := d) room₀
    (by rw [← ht₀, gpr_withMemory, gpr_setGpr_same]) (by rwa [hspace₀])
  rw [hspace₀] at hd
  refine ⟨_, henter, ⟨room₀.of_window rfl, ?_, ?_, ?_⟩, ?_, ?_, fun r hsp hbp => ?_, hvector₀⟩
  · rw [withMemory, space_setGpr, space_setGpr, hspace₀]
  · exact (hdiffers.mono (Nat.zero_le _) (Nat.le_refl _)).trans
      (hd.mono (Nat.le_refl _) (by omega))
  · refine hsaved.congr (hgpr₀ rbp (by decide)).symm (fun r hr => (hgpr₀ r ?_).symm) hvector₀.symm
    exact ne_of_mem_of_not_mem hr (rsp_not_mem_savedGprs d)
  · rw [gpr_withMemory, gpr_setGpr_same]
  · rw [gpr_withMemory, gpr_setGpr_other _ _ (by decide), gpr_setGpr_same]
  · rw [gpr_withMemory, gpr_setGpr_other _ _ hsp, gpr_setGpr_other _ _ hbp, hgpr₀ r hsp]

/-- The registers that were saved are taken back, vector registers first. -/
theorem runs_restore {back : HostAddress} (room : t.HasRoom lo (n + frameSize))
    (hbp : t.gpr rbp = lo + UInt64.ofNat (n + 368)) (saved : Saved d lo n back t₀ t.space.memory) :
    t.runs (((savedVectors d).zipIdx.map fun (x, i) => .vectorLoadRbp x (16 * i -
        (scratchSize + (8 * (savedGprs d).length : Nat) + (16 * (savedVectors d).length : Nat))))
      ++ [.leaRbp rsp (-(scratchSize + (8 * (savedGprs d).length : Nat)))]
      ++ (savedGprs d).reverse.map .pop) = .ok { t with
        gpr := put (putAll t.gpr t₀.gpr (savedGprs d)) rsp (lo + UInt64.ofNat (n + 352))
        vector := putAll t.vector t₀.vector (savedVectors d) } := by
  obtain ⟨hg, hv, hlow⟩ := d.offsets n
  have hf : frameSize = 384 := rfl
  have hslots : t.gpr rbp = lo + UInt64.ofNat (d.vectorsAt n +
      (scratchSize + 8 * (savedGprs d).length + 16 * (savedVectors d).length)) := by
    rw [hbp]
    congr 2
    simp only [scratchSize]
    omega
  have hfits : d.vectorsAt n + 16 * (0 + (savedVectors d).length) ≤ n + frameSize := by omega
  have hload := runs_vectorLoadRbp room (f := t₀.vector) hslots saved.vectors hfits
  rw [Int.natCast_add, Int.natCast_add] at hload
  generalize hu : ({ t with vector := putAll t.vector t₀.vector (savedVectors d) } : Machine σ) = u
    at hload
  have hlea : u.step (.leaRbp rsp (-(scratchSize + (8 * (savedGprs d).length : Nat)))) =
      .ok (u.setGpr rsp (lo + UInt64.ofNat (d.gprsAt n))) := by
    have hbp : u.gpr rbp = lo + UInt64.ofNat (n + 368) := by
      rw [← hu]
      exact hbp
    rw [step, near_offset hbp (k := d.gprsAt n) (by simp only [scratchSize]; omega)]
    rfl
  have hroom : (u.setGpr rsp (lo + UInt64.ofNat (d.gprsAt n))).HasRoom lo (n + frameSize) :=
    room.of_window (by rw [← hu, space_setGpr])
  have hslots : (u.setGpr rsp (lo + UInt64.ofNat (d.gprsAt n))).space.memory.Lays lo (d.gprsAt n)
      ((savedGprs d).reverse.map fun r => gprWord (t₀.gpr r)) := by
    rw [← hu]
    exact saved.gprs
  have hpop := runs_pop hroom (fun h => rsp_not_mem_savedGprs d (List.mem_reverse.1 h))
    (gpr_setGpr_same ..) hslots (by rw [List.length_reverse]; omega)
  rw [List.append_assoc, runs_append hload, List.singleton_append, runs_cons hlea, hpop,
    List.length_reverse, hg, setGpr, putAll_reverse, put_putAll_put, ← hu]

/-- The thunk ends by taking the registers back from its frame. -/
theorem runs_leave {back : HostAddress} (room : t.HasRoom lo (n + frameSize))
    (hbp : t.gpr rbp = lo + UInt64.ofNat (n + 368)) (saved : Saved d lo n back t₀ t.space.memory) :
    t.runs (leave d) = .ok { t with
      gpr := put (put (putAll t.gpr t₀.gpr (savedGprs d)) rsp (lo + UInt64.ofNat (n + 376))) rbp
        (t₀.gpr rbp)
      vector := putAll t.vector t₀.vector (savedVectors d) } := by
  have hrestore := runs_restore room hbp saved
  generalize hu : Machine.mk _ _ _ = u at hrestore
  have hbp : u.gpr rbp = lo + UInt64.ofNat (n + 368) := by
    rw [← hu]
    have hne : rbp ≠ rsp := by decide
    simp only [put_other _ _ hne, putAll_other _ _ (rbp_not_mem_savedGprs d), hbp]
  have hspace : u.space = t.space := by
    rw [← hu]
  have hmov : u.step (.mov64 rsp rbp) = .ok (u.setGpr rsp (lo + UInt64.ofNat (n + 368))) := by
    rw [step, hbp]
    rfl
  have hpop : (u.setGpr rsp (lo + UInt64.ofNat (n + 368))).step (.popShort rbp) =
      .ok ((u.setGpr rsp (lo + UInt64.ofNat (n + 376))).setGpr rbp (t₀.gpr rbp)) := by
    have hf : frameSize = 384 := rfl
    have room : (u.setGpr rsp (lo + UInt64.ofNat (n + 368))).HasRoom lo (n + frameSize) :=
      room.of_window (by rw [space_setGpr, hspace])
    rw [step, pop_of_room room (gpr_setGpr_same ..) (by omega), space_setGpr, hspace, saved.frame,
      setGpr_setGpr]
    rfl
  rw [leave, runs_append hrestore, runs_cons hmov, runs_cons hpop, runs_nil, ← hu]
  simp only [setGpr, put_put]

end Machine

end GuestMemory.X64
