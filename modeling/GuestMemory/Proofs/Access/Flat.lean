import GuestMemory.Proofs.Access.Bytewise

/-!
Without the cache model, guest memory is flat: an access to bytes that the history put in host
memory works on exactly those bytes, wherever they lie.
-/
namespace GuestMemory.Space

variable {σ : Type} {s : Space σ} {w : Width} {v : GuestAddress} {loc : Nat → HostAddress}

theorem isCached_of_off (h : s.settings.cacheModel = false) (v : GuestAddress) :
    s.isCached v = false := by
  rw [isCached, h, Bool.false_and]

theorem readByte_flat (off : s.settings.cacheModel = false) {a : HostAddress}
    (ha : s.virtual.resolve v = .host a) : s.readByte v = (s.memory.load .w8 a, s) := by
  rw [readByte]
  simp only [ha, isCached_of_off off, Bool.false_eq_true, if_false]

theorem writeByte_flat (off : s.settings.cacheModel = false) {a : HostAddress}
    (ha : s.virtual.resolve v = .host a) (x : Word .w8) :
    s.writeByte v x = { s with memory := s.memory.store a x } := by
  rw [writeByte]
  simp only [ha, isCached_of_off off, Bool.false_eq_true, if_false]

def hostView (s : Space σ) : HostAddress → UInt8 := s.memory.byte

/-- `t` is `s` but for the bytes of host memory. -/
def OnlyMemory (s t : Space σ) : Prop := ∃ memory, t = { s with memory }

/-- Without the cache a byte is loaded from host memory. -/
theorem loadsByte_flat (off : s.settings.cacheModel = false) {a : HostAddress}
    (ha : s.virtual.resolve v = .host a) : LoadsByte hostView (· = s) v a := by
  constructor
  · rintro _ rfl
    rw [readByte_flat off ha]
    rfl
  · rintro _ rfl
    rw [readByte_flat off ha]
  · rintro _ rfl
    rw [readByte_flat off ha]

/-- Without the cache a byte is stored in host memory, and that is all. -/
theorem storesByte_flat (off : s.settings.cacheModel = false) {a : HostAddress}
    (ha : s.virtual.resolve v = .host a) : StoresByte hostView (OnlyMemory s) v a := by
  constructor
  · rintro _ x ⟨memory, rfl⟩ b
    rw [writeByte_flat (s := { s with memory }) off ha, Memory.store, Word.bytes_ofBytes rfl]
    exact memory.byte_setByte a b x
  · rintro _ x ⟨memory, rfl⟩
    rw [writeByte_flat (s := { s with memory }) off ha]
    exact ⟨_, rfl⟩

/-- A load of bytes in host memory gives them, and changes nothing. -/
theorem read_flat (off : s.settings.cacheModel = false)
    (h : Backs s.virtual.resolve v w.bytes loc) :
    s.read w v = (Word.ofBytes w (gather s.memory.byte loc w.bytes), s) := by
  rw [read]
  simp only [h.head w.bytes_pos, isCached_of_off off, Bool.false_eq_true, if_false]
  split
  · obtain ⟨hvalue, -, hs⟩ := readBytes_view (fun i hi => loadsByte_flat off (h i hi)) rfl
    have he : s.readBytes v w.bytes = (gather s.memory.byte loc w.bytes, s) := Prod.ext hvalue hs
    rw [readBytewise, he]
  · rename_i hn
    rw [Memory.load, s.memory.read_eq_gather (h.side_by_side (le_of_not_straddles hn))]

/-- A store to bytes in host memory puts its own there, and changes nothing else. -/
theorem write_flat {P : HostAddress → Prop} (off : s.settings.cacheModel = false)
    (hm : s.virtual.Shows P) (h : Backs s.virtual.resolve v w.bytes loc) (x : Word w) :
    ∃ memory, s.write v x = { s with memory } ∧
      Puts s.memory.byte loc x.bytes memory.byte := by
  have hl : x.bytes.length = w.bytes := Word.length_bytes x
  have hw := w.bytes_le
  rw [write]
  simp only [h.head w.bytes_pos, isCached_of_off off, Bool.false_eq_true, if_false]
  split
  · have hapart : ∀ i < x.bytes.length, ∀ j < x.bytes.length, loc i = loc j → i = j := by
      intro i hi j hj e
      exact h.injective hm (by omega) (hl ▸ hi) (hl ▸ hj) e
    obtain ⟨hputs, memory, he⟩ := writeBytes_view
      (fun i hi => storesByte_flat off (h i (hl ▸ hi))) hapart ⟨s.memory, rfl⟩
    rw [he] at hputs
    exact ⟨memory, he, hputs⟩
  · rename_i hn
    refine ⟨_, rfl, s.memory.puts_write (by omega) fun i hi => ?_⟩
    exact h.side_by_side (le_of_not_straddles hn) i (hl ▸ hi)

/-- A space serves an atlas when guest memory is exactly the host bytes that the atlas names: a load
gives them, a store puts its bytes there and changes nothing else of the whole space, and from then
on every address that leads to them loads what was stored. -/
structure Serves (s : Space σ) (atlas : Atlas) : Prop where
  read : ∀ w v loc, Backs atlas.virtual v w.bytes loc →
    s.read w v = (Word.ofBytes w (gather s.memory.byte loc w.bytes), s)
  write : ∀ w v loc, Backs atlas.virtual v w.bytes loc → ∀ x : Word w,
    ∃ memory, s.write v x = { s with memory } ∧ Puts s.memory.byte loc x.bytes memory.byte
  reread : ∀ w v loc, Backs atlas.virtual v w.bytes loc → ∀ x : Word w,
    ∀ w' v' loc', Backs atlas.virtual v' w'.bytes loc' →
      ((s.write v x).read w' v').1 =
        Word.ofBytes w' (gather (s.write v x).memory.byte loc' w'.bytes)

/-- Without the cache a space serves the atlas that its maps agree with. -/
theorem serves_of_agrees {atlas : Atlas} {P : HostAddress → Prop}
    (off : s.settings.cacheModel = false) (hm : s.virtual.Shows P) (ha : atlas.Agrees s.maps) :
    s.Serves atlas := by
  have hb : atlas.virtual = s.virtual.resolve := funext ha.virtual
  constructor
  · intro w v loc h
    exact read_flat off (hb ▸ h)
  · intro w v loc h x
    exact write_flat off hm (hb ▸ h) x
  · intro w v loc h x w' v' loc' h'
    obtain ⟨memory, he, -⟩ := write_flat off hm (hb ▸ h) x
    rw [he, read_flat (s := { s with memory }) off (hb ▸ h')]

/-- With the cache model off, whatever was called before, guest memory is the host bytes that the
last successful calls named. -/
theorem run_serves {s : Space σ} (fresh : s.IsFresh) (off : s.settings.cacheModel = false)
    (calls : List (Command σ)) (hc : ∀ c ∈ calls, ¬c.IsInstall) :
    (s.run calls).2.Serves (Atlas.initial.follow s calls) := by
  have hl : Leads (fun _ c => ¬c.IsInstall) s (s.run calls).2 := leads_run fun c h _ => hc c h
  have hoff : (s.run calls).2.settings.cacheModel = false :=
    hl.keeps (P := fun t => t.settings.cacheModel = false) off fun t c h ha =>
      (congrArg Settings.cacheModel (mapStep_step ha).settings_eq).trans h
  have hm : (s.run calls).2.maps.Shows fun _ => True :=
    hl.keeps (P := fun t => t.maps.Shows fun _ => True) (fresh.maps_shows _) fun t c h ha =>
      (mapStep_step ha).shows (fun _ _ _ => trivial) h (c.brings_true _)
  exact serves_of_agrees hoff hm.virtual (fresh.agrees.follow calls hc)

def crossed : List (Command Unit) :=
  [.allocate "ram" 0x2000 .readWrite, .projectBlock 0x1000 ⟨0x1000, 0x1000⟩ 0x1000,
    .projectBlock 0x2000 ⟨0, 0x1000⟩ 0x1000]

/-- A word over the border of the two virtual pages lies in both pages of the arena. -/
theorem run_serves_crossed :
    let s := made false false
    s.IsFresh ∧ s.settings.cacheModel = false ∧ (∀ c ∈ crossed, ¬c.IsInstall) ∧
      (s.run crossed).2.Serves (Atlas.initial.follow s crossed) ∧
      Backs (Atlas.initial.follow s crossed).virtual 0x1FFF 2 fun i =>
        if i = 0 then 0x700000001FFF else 0x700000000000 := by
  have fresh := isFresh_made false false
  have hc : ∀ c ∈ crossed, ¬c.IsInstall := by simp [crossed, Command.IsInstall]
  refine ⟨fresh, rfl, hc, run_serves fresh rfl crossed hc, fun i hi => ?_⟩
  match i, hi with
  | 0, _ => rfl
  | 1, _ => rfl

end GuestMemory.Space
