import GuestMemory.Proofs.Window.Lockstep
import GuestMemory.Proofs.Window.Record

/-!
Reverse lookup: from a host address in the window to an offset of the arena, and from an offset to the
guest pages that show it. Both go through the record of the window, which has the low 32 bits of an
offset; so both are right about these, and two bytes of the arena that agree in them are not told
apart.
-/
namespace GuestMemory

namespace Window

/-- The record answers with the low 32 bits of what the page shows. -/
theorem Recorded.resolve {w : Window} (h : w.Recorded) (hw : w.base.toNat + 2 ^ 32 ≤ 2 ^ 64)
    (v : GuestAddress) :
    w.resolve (w.base + v.toUInt64) =
      (w.shows v).map fun o => pageWord o ||| v.pageOffset := by
  rw [Window.resolve, Space.guest?_add hw, Option.bind_some, Aliases.resolve, h.offsets,
    Option.map_map]
  rfl

end Window

namespace Space

variable {σ : Type} {s : Space σ}

/-- Calls that bring in blocks of the arena, or host memory that has been carved off it or lies
beside it. -/
def Command.IsGrounded (s : Space σ) : Command σ → Prop
  | .mapBlock block _ _ _ => s.arena.Owns block
  | .projectBlock _ block _ => s.arena.Owns block
  | .mapMemory base _ size blockSize => HostRun (Housed s.arena) base (blockBytes size blockSize)
  | .projectBuffer _ buffer size => HostRun (Housed s.arena) buffer size
  | _ => True

theorem Command.IsGrounded.brings {c : Command σ} (h : c.IsGrounded s) (hp : s.arena.IsPaved) :
    c.Brings (Housed s.arena) s.arena := by
  cases c with
  | mapBlock block start size blockSize =>
    exact fun room i hi => .inl (hp.hostRun_block h room i hi)
  | projectBlock v block size => exact fun room i hi => .inl (hp.hostRun_block h room i hi)
  | mapMemory base start size blockSize => exact h
  | projectBuffer v buffer size => exact h
  | _ => exact trivial

theorem Command.IsGrounded.drained {c : Command σ} (h : c.IsGrounded s) :
    c.IsGrounded s.drained := by
  cases c <;> exact h

/-- Installing maps the blocks that it has carved off, so it keeps the window in step. -/
theorem KeepsStep.install (h : s.KeepsStep) (hardware : Layout.Hardware) :
    (s.perform (.install hardware)).2.KeepsStep := by
  have part : ∀ (t : Space σ) (c : Command σ), Layout.IsPart c → c.IsGrounded t → t.KeepsStep →
      (t.perform c).2.KeepsStep := by
    intro t c hp hg ht
    have hk : c.KeepsWindow := by cases c <;> first | exact hp | trivial
    exact ht.perform_brings hp.not_install hk (hg.brings ht.paved)
  rw [perform_install_leaves]
  refine Layout.keeps_install (P := KeepsStep)
    (Q := fun l t => t.KeepsStep ∧ ∀ b ∈ l.blocks, t.arena.Owns b) (fun t c hc ht => ?_)
    (fun t l u hl hu => ⟨hu, fun b hb => Layout.owned_allocateRegions hl b hb.val⟩)
    (fun l t c hc ht => ⟨part t c hc.isPart ?_ ht.1, fun b hb => ?_⟩) (fun _ _ => And.left)
    hardware s h
  · refine part t c hc.isPart ?_ ht
    cases c <;> first | exact absurd hc id | trivial
  · cases c with
    | mapBlock block start size blockSize => exact ht.2 block hc
    | projectBlock v block size => exact ht.2 block hc
    | _ => first | exact absurd hc id | trivial
  · exact (mapStep_perform (s := t) hc.isPart.not_install).owns (ht.2 b hb)

/-- The window keeps step as long as there is one. -/
def Tracked (s : Space σ) : Prop := s.window.isSome = true → s.KeepsStep

/-- A window that there is stays in step, whatever calls are made with blocks of the arena. -/
theorem Tracked.perform (h : s.Tracked) {c : Command σ} (hc : c.IsGrounded s) :
    (s.perform c).2.Tracked := by
  intro on
  obtain ⟨w', hw'⟩ := Option.isSome_iff_exists.1 on
  obtain ⟨w, hw, -⟩ := s.windowFrom_perform c w' hw'
  have hs : s.KeepsStep := h (by rw [hw]; rfl)
  cases c with
  | install hardware => exact hs.install hardware
  | shutdown =>
    have hn : s.shutdown.window = none := by
      rw [shutdown, hw]
    have hw'' : s.shutdown.window = some w' := hw'
    rw [hn] at hw''
    cases hw''
  | _ => exact hs.perform_brings id trivial (hc.brings hs.paved)

theorem Tracked.step (h : s.Tracked) {c : Command σ} (hc : c.IsGrounded s) :
    (s.step c).2.Tracked := by
  have hd : s.drained.Tracked := fun on => (h on).drained
  exact fun on => (hd.perform hc.drained on).drained

/-- The record follows the window over every history, on a host that grants its changes. -/
theorem IsFresh.recorded {s₀ : Space σ} {allowed : Space σ → Command σ → Prop} (h : s₀.IsFresh)
    (granted : s₀.Granted) (run : Leads allowed s₀ s) (w : Window) (hw : s.window = some w) :
    w.Recorded := by
  obtain ⟨w₀, hw₀, hb⟩ := run.windowFrom w hw
  refine Window.Recorded.becomes ?_ (granted w₀ hw₀) hb
  obtain ⟨place, settings, level, routed, kernel, hc⟩ := h
  obtain ⟨arena, journal, -, rfl⟩ := create_eq_ok hc
  simp only at hw₀
  split at hw₀
  · cases hw₀
    exact Window.recorded_create place.window kernel
  · cases hw₀

/-- The virtual map leads from `v` to the byte at an offset of the arena. -/
def ReachesByte (s : Space σ) (v : GuestAddress) (n : Nat) : Prop :=
  ∃ a, s.virtual.resolve v = .host a ∧ a.toNat = s.arena.base.toNat + n ∧ n < s.arena.size

theorem ReachesByte.unique {v : GuestAddress} {n m : Nat} (hn : s.ReachesByte v n)
    (hm : s.ReachesByte v m) : n = m := by
  obtain ⟨a, ha, hna, -⟩ := hn
  obtain ⟨b, hb, hmb, -⟩ := hm
  cases ha.symm.trans hb
  omega

theorem InStep.shown_aligned (h : s.InStep) {v : GuestAddress} {o : Nat}
    (ho : s.maps.shown v = some o) : o % 4096 = 0 := by
  obtain ⟨distance, hd, hpage⟩ := Maps.shown_eq_some.1 ho
  have ha := (h.housed.virtual v distance hd).1
  have hb := h.paved.base_aligned
  have hsum : _ = s.arena.base.toNat + o := (Arena.offset?_eq_some.1 hpage).2
  omega

/-- What the window has to show at a page is the arena page of the bytes that the map leads to. -/
theorem InStep.reachesByte_iff (h : s.InStep) {v : GuestAddress} {n : Nat} :
    s.ReachesByte v n ↔ ∃ o, s.maps.shown v = some o ∧ n = o + v.toNat % 4096 := by
  have hb := h.paved.base_aligned
  have hfits := h.paved.base_fits
  have hused := h.paved.used_le
  have hmod := h.paved.used_aligned
  constructor
  · rintro ⟨a, ha, hn, hlt⟩
    obtain ⟨distance, hd, -⟩ := VirtualMap.resolve_eq_host.1 ha
    obtain ⟨hoff, hpage⟩ := h.housed.virtual.pageBase_eq hd ha
    have hbase := HostAddress.toNat_pageBase a
    rw [hpage] at hbase
    obtain ⟨hpaged, hhoused⟩ := h.housed.virtual v distance hd
    have hin : s.arena.Holds (hostPage distance v) := by
      refine hhoused.resolve_right fun hout => ?_
      have hout' : (hostPage distance v).toNat < s.arena.base.toNat ∨
          s.arena.base.toNat + s.arena.size ≤ (hostPage distance v).toNat := hout
      omega
    have hle : s.arena.base.toNat ≤ (hostPage distance v).toNat := hin.1
    refine ⟨(hostPage distance v).toNat - s.arena.base.toNat, ?_, by omega⟩
    exact Maps.shown_eq_some.2 ⟨distance, hd, Arena.offset?_eq_some.2 ⟨hin, by
      show _ = s.arena.base.toNat + _
      omega⟩⟩
  · rintro ⟨o, ho, rfl⟩
    have haligned := h.shown_aligned ho
    obtain ⟨distance, hd, hpage⟩ := Maps.shown_eq_some.1 ho
    obtain ⟨⟨-, hlt⟩, hsum⟩ := Arena.offset?_eq_some.1 hpage
    have hsum' : (hostPage distance v).toNat = s.arena.base.toNat + o := hsum
    have hlt' : (hostPage distance v).toNat < s.arena.base.toNat + s.arena.used := hlt
    refine ⟨_, VirtualMap.resolve_eq_host.2 ⟨distance, hd, rfl⟩, ?_, by omega⟩
    rw [UInt64.toNat_add, UInt32.toNat_toUInt64, GuestAddress.toNat_pageOffset]
    omega

section

variable {w : Window} (h : s.InStep) (hrec : w.Recorded) (hm : w.Mirrors s.maps.shown)

include h hrec hm

/-- The offset that is given for a host address is the low word of that of the byte. -/
theorem InStep.resolve_iff (hfits : w.base.toNat + 2 ^ 32 ≤ 2 ^ 64) (v : GuestAddress)
    (o : UInt32) :
    w.resolve (w.base + v.toUInt64) = some o ↔ ∃ n, s.ReachesByte v n ∧ UInt32.ofNat n = o := by
  rw [hrec.resolve hfits, hm.shows_eq, Option.map_eq_some_iff]
  constructor
  · rintro ⟨n, hn, rfl⟩
    exact ⟨_, h.reachesByte_iff.2 ⟨n, hn, rfl⟩, (Window.pageWord_or (h.shown_aligned hn) v).symm⟩
  · rintro ⟨m, hr, rfl⟩
    obtain ⟨n, hn, rfl⟩ := h.reachesByte_iff.1 hr
    exact ⟨n, hn, Window.pageWord_or (h.shown_aligned hn) v⟩

/-- The pages that are listed for an offset are those whose own offset has the low word of its
page. -/
theorem InStep.mem_ofOffset (o : UInt32) (v : GuestAddress) :
    v ∈ w.aliases.ofOffset o ↔
      v.pageBase = v ∧ ∃ n, s.ReachesByte v n ∧ UInt32.ofNat n = GuestAddress.pageBase o := by
  rw [hrec.mem, hm.shows_eq, Option.map_eq_some_iff]
  refine and_congr_right fun hv => ?_
  have hmod : v.toNat % 4096 = 0 := by
    have hb := GuestAddress.toNat_pageBase v
    rw [hv] at hb
    omega
  constructor
  · rintro ⟨n, hn, he⟩
    have hr : s.ReachesByte v n := h.reachesByte_iff.2 ⟨n, hn, by omega⟩
    exact ⟨n, hr, (Window.pageWord_of_aligned (h.shown_aligned hn)).symm.trans he⟩
  · rintro ⟨m, hr, he⟩
    obtain ⟨n, hn, rfl⟩ := h.reachesByte_iff.1 hr
    rw [hmod, Nat.add_zero] at he
    exact ⟨n, hn, (Window.pageWord_of_aligned (h.shown_aligned hn)).trans he⟩

end

/-- Both directions of the lookup are right about every offset of 32 bits, and there is no other. -/
structure ExactLookup (s : Space σ) (w : Window) : Prop where
  resolve : ∀ v o, w.resolve (w.base + v.toUInt64) = some o ↔ s.ReachesByte v o.toNat
  aliases : ∀ o v, v ∈ w.aliases.ofOffset o ↔
    v.pageBase = v ∧ s.ReachesByte v (GuestAddress.pageBase o).toNat

/-- Lookup in the window of every state that a history of a fresh space reaches, on a host that lets
the window follow. The offset that it gives for a byte is the low word of the offset in the arena, the
pages that it lists for an offset are those whose own offset has the low word of that page, and so it is
exact as long as no page leads to a byte past the first 4 GB of the arena, and no longer. -/
theorem lookup_modulo {s₀ s : Space σ} (fresh : s₀.IsFresh) (placed : s₀.IsPlaced)
    (granted : s₀.Granted) (run : Leads (fun t c => c.IsGrounded t) s₀ s) {w : Window}
    (hw : s.window = some w) :
    (∀ v o, w.resolve (w.base + v.toUInt64) = some o ↔
      ∃ n, s.ReachesByte v n ∧ UInt32.ofNat n = o) ∧
    (∀ o, (w.aliases.ofOffset o).toList.Nodup ∧ ∀ v, v ∈ w.aliases.ofOffset o ↔
      v.pageBase = v ∧ ∃ n, s.ReachesByte v n ∧ UInt32.ofNat n = GuestAddress.pageBase o) ∧
    (s.ExactLookup w ↔ ∀ v n, s.ReachesByte v n → n < 2 ^ 32) := by
  have htracked : s.Tracked :=
    run.keeps (P := Tracked) (fun on => fresh.keepsStep placed granted on) fun t c ht hc => ht.step hc
  have h : s.InStep := (htracked (by rw [hw]; rfl)).toInStep
  have hrec : w.Recorded := fresh.recorded granted run w hw
  obtain ⟨w', hw', hfits, hm⟩ := h.window
  cases hw.symm.trans hw'
  have hresolve := h.resolve_iff hrec hm hfits
  have haliases := h.mem_ofOffset hrec hm
  refine ⟨hresolve, fun o => ⟨hrec.nodup o, haliases o⟩, fun hexact v n hn => ?_, fun hlow => ?_⟩
  · have hr := (hexact.resolve v _).1 ((hresolve v _).2 ⟨n, hn, rfl⟩)
    rw [hn.unique hr]
    exact UInt32.toNat_lt _
  · have hnat : ∀ v o, (∃ n, s.ReachesByte v n ∧ UInt32.ofNat n = o) ↔ s.ReachesByte v o.toNat := by
      intro v o
      constructor
      · rintro ⟨n, hn, rfl⟩
        rwa [UInt32.toNat_ofNat_of_lt' (hlow v n hn)]
      · exact fun hr => ⟨_, hr, UInt32.ofNat_toNat⟩
    refine ⟨fun v o => (hresolve v o).trans (hnat v o), fun o v => ?_⟩
    rw [haliases, hnat]

/-- A space with 8 GB of arena, and one page of it carved off at the start and one at 4 GB. -/
def wide : Space Unit where
  settings := { window := true, arenaSize := 0x200000000 }
  arena := { base := anywhere.arena, size := 0x200000000 }
  window := some (Window.create anywhere.window)

def wideCarved : Space Unit :=
  (wide.run [.allocate "low" 0x1000 .readWrite, .allocate "gap" 0xFFFFF000 .readWrite,
    .allocate "high" 0x1000 .readWrite]).2

/-- The page at the start, and then also the one at 4 GB behind a virtual page. -/
def lowShown : Space Unit := (wideCarved.step (.projectBlock 0x1000 ⟨0, 0x1000⟩ 0x1000)).2

def highShown : Space Unit :=
  (lowShown.step (.projectBlock 0x2000 ⟨0x100000000, 0x1000⟩ 0x1000)).2

theorem isFresh_wide : wide.IsFresh :=
  ⟨anywhere, { window := true, arenaSize := 0x200000000 }, none, false, .linux, rfl⟩

theorem granted_wide : wide.Granted := by
  rintro w ⟨⟩
  rfl

theorem isPlaced_wide : wide.IsPlaced := by
  refine ⟨by decide, by decide, fun w hw => ?_⟩
  cases hw
  decide

theorem leads_highShown : Leads (fun t c => c.IsGrounded t) wide highShown := by
  have h₁ : Leads (fun t c => c.IsGrounded t) wide wideCarved :=
    leads_run (by simp [Command.IsGrounded])
  have hlow : wideCarved.arena.Owns ⟨0, 0x1000⟩ :=
    ⟨⟨"low", 0, 0x1000, .readWrite⟩, .head _, rfl, rfl⟩
  have hhigh : lowShown.arena.Owns ⟨0x100000000, 0x1000⟩ :=
    ⟨⟨"high", 0x100000000, 0x1000, .readWrite⟩, .tail _ (.tail _ (.head _)), rfl, rfl⟩
  exact (h₁.tail ⟨.projectBlock 0x1000 ⟨0, 0x1000⟩ 0x1000, hlow, rfl⟩).tail
    ⟨.projectBlock 0x2000 ⟨0x100000000, 0x1000⟩ 0x1000, hhigh, rfl⟩

/-- With memory beyond 4 GB, the lookup is not exact. -/
theorem lookup_modulo_high :
    wide.IsFresh ∧ wide.IsPlaced ∧ wide.Granted ∧
      Leads (fun t c => c.IsGrounded t) wide highShown ∧
      ∃ w, highShown.window = some w ∧ ¬highShown.ExactLookup w := by
  obtain ⟨w, hw⟩ : ∃ w, highShown.window = some w := ⟨_, rfl⟩
  refine ⟨isFresh_wide, isPlaced_wide, granted_wide, leads_highShown, w, hw, fun hexact => ?_⟩
  have hlow := (lookup_modulo isFresh_wide isPlaced_wide granted_wide leads_highShown hw).2.2.1
    hexact
  have hreaches : highShown.ReachesByte 0x2000 0x100000000 := ⟨0x700100000000, by decide +kernel⟩
  exact absurd (hlow _ _ hreaches) (by decide)

/-- The page at 4 GB is reported as the one at the start. -/
theorem two_pages_one_offset :
    wide.IsFresh ∧ wide.IsPlaced ∧ wide.Granted ∧
      Leads (fun t c => c.IsGrounded t) wide highShown ∧
      highShown.ReachesByte 0x2000 0x100000000 ∧ ¬highShown.ReachesByte 0x2000 0 ∧
        ∃ w, highShown.window = some w ∧
          w.resolve (w.base + (0x2000 : GuestAddress).toUInt64) = some 0 ∧
          w.aliases.ofOffset 0 = #[0x1000, 0x2000] := by
  have hreaches : highShown.ReachesByte 0x2000 0x100000000 := ⟨0x700100000000, by decide +kernel⟩
  refine ⟨isFresh_wide, isPlaced_wide, granted_wide, leads_highShown, hreaches, fun h => ?_, _, rfl, ?_⟩
  · exact absurd (hreaches.unique h) (by decide)
  · decide +kernel

end Space

end GuestMemory
