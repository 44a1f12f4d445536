import GuestMemory.Proofs.Maps.Backing

/-!
Accesses carried out byte by byte. What one byte does to a view of host memory, with an invariant
that it keeps, makes what the whole access does.
-/
namespace GuestMemory.Space

variable {σ : Type} {view : Space σ → HostAddress → UInt8} {Inv : Space σ → Prop}

theorem le_of_not_straddles {v : GuestAddress} {w : Width} (h : ¬straddles v w) :
    v.toNat % 4096 + w.bytes ≤ 4096 := by
  rw [straddles, decide_eq_true_eq, GuestAddress.toNat_pageOffset, pageSize] at h
  omega

theorem page_add_of_lt {v : GuestAddress} {i : Nat} (h : v.toNat % 4096 + i < 4096) :
    (v + UInt32.ofNat i).page = v.page := by
  have hv := v.toNat_lt
  rw [GuestAddress.page_eq, GuestAddress.page_eq, UInt32.toNat_add, UInt32.toNat_ofNat']
  omega

/-- Loading a byte shows it in the view, and changes nothing there. -/
structure LoadsByte (view : Space σ → HostAddress → UInt8) (Inv : Space σ → Prop)
    (v : GuestAddress) (a : HostAddress) : Prop where
  value : ∀ t, Inv t → (t.readByte v).1 = Word.ofBytes .w8 [view t a]
  view_eq : ∀ t, Inv t → view (t.readByte v).2 = view t
  inv : ∀ t, Inv t → Inv (t.readByte v).2

/-- Storing a byte changes it in the view, and nothing else there. -/
structure StoresByte (view : Space σ → HostAddress → UInt8) (Inv : Space σ → Prop)
    (v : GuestAddress) (a : HostAddress) : Prop where
  view_eq : ∀ t x, Inv t → ∀ b,
    view (t.writeByte v (Word.ofBytes .w8 [x])) b = if a = b then x else view t b
  inv : ∀ t x, Inv t → Inv (t.writeByte v x)

/-- A load gives what the view has, if each of its bytes does. -/
theorem readBytes_view {s : Space σ} {v : GuestAddress} {n : Nat} {loc : Nat → HostAddress}
    (byte : ∀ i < n, LoadsByte view Inv (v + UInt32.ofNat i) (loc i)) (hs : Inv s) :
    (s.readBytes v n).1 = gather (view s) loc n ∧ view (s.readBytes v n).2 = view s ∧
      Inv (s.readBytes v n).2 := by
  induction n generalizing s v loc with
  | zero => exact ⟨rfl, rfl, hs⟩
  | succ n ih =>
    have h0 : LoadsByte view Inv v (loc 0) := by
      have h := byte 0 (Nat.zero_lt_succ n)
      rwa [add_ofNat_zero] at h
    have htail : ∀ i < n, LoadsByte view Inv (v + 1 + UInt32.ofNat i) (loc (i + 1)) := by
      intro i hi
      rw [add_one_add]
      exact byte (i + 1) (Nat.succ_lt_succ hi)
    obtain ⟨hvalue, hview, hinv⟩ := ih htail (h0.inv s hs)
    refine ⟨?_, ?_, hinv⟩
    · show (s.readByte v).1.bytes ++ ((s.readByte v).2.readBytes (v + 1) n).1 = _
      rw [hvalue, h0.view_eq s hs, h0.value s hs, Word.bytes_ofBytes rfl, gather_succ]
      rfl
    · exact hview.trans (h0.view_eq s hs)

/-- A store puts its bytes into the view, if each byte is put there and no two of them share a
place. -/
theorem writeBytes_view {s : Space σ} {v : GuestAddress} {bs : List UInt8}
    {loc : Nat → HostAddress}
    (byte : ∀ i < bs.length, StoresByte view Inv (v + UInt32.ofNat i) (loc i))
    (apart : ∀ i < bs.length, ∀ j < bs.length, loc i = loc j → i = j) (hs : Inv s) :
    Puts (view s) loc bs (view (s.writeBytes v bs)) ∧ Inv (s.writeBytes v bs) := by
  induction bs generalizing s v loc with
  | nil => exact ⟨.nil _ _, hs⟩
  | cons x bs ih =>
    have h0 : StoresByte view Inv v (loc 0) := by
      have h := byte 0 (Nat.zero_lt_succ bs.length)
      rwa [add_ofNat_zero] at h
    have htail : ∀ i < bs.length, StoresByte view Inv (v + 1 + UInt32.ofNat i) (loc (i + 1)) := by
      intro i hi
      rw [add_one_add]
      exact byte (i + 1) (Nat.succ_lt_succ hi)
    have hapart : ∀ i < bs.length, ∀ j < bs.length, loc (i + 1) = loc (j + 1) → i = j := by
      intro i hi j hj e
      exact Nat.succ.inj (apart _ (Nat.succ_lt_succ hi) _ (Nat.succ_lt_succ hj) e)
    have hfresh : ∀ i < bs.length, loc (i + 1) ≠ loc 0 := by
      intro i hi e
      exact Nat.succ_ne_zero i
        (apart _ (Nat.succ_lt_succ hi) _ (Nat.zero_lt_succ bs.length) e)
    obtain ⟨hputs, hinv⟩ := ih htail hapart (h0.inv s _ hs)
    exact ⟨.cons (h0.view_eq s x hs) hputs hfresh, hinv⟩

end GuestMemory.Space
