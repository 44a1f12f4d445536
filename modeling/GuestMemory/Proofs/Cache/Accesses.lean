import GuestMemory.Proofs.Cache.Moves

/-!
What the guest can do to what is seen. A load gives the bytes that are seen, a store changes exactly
its own, and of the cache operations only the two that drop a line uncover memory, under that line.
-/
namespace GuestMemory.Cache

variable {c : Cache} {m : Memory} {v : GuestAddress} {host : HostAddress}

/-- Bytes of an access that fits its line lie in the line of the first. -/
theorem host_add (hm : host.toNat % 4096 = v.toNat % 4096) {w : Width} (fits : Fits v w) {i : Nat}
    (hi : i < w.bytes) :
    hostIndex (host + UInt64.ofNat i) = hostIndex host ∧
      hostOffset (host + UInt64.ofNat i) = offset v + i ∧
        (host + UInt64.ofNat i).pageBase = host.pageBase := by
  have hlt := host.toNat_lt
  have hf : v.toNat % 64 + w.bytes ≤ 64 := by
    rw [← offset_eq]
    exact fits
  have hs : (host + UInt64.ofNat i).toNat = host.toNat + i := Memory.toNat_add_offset (by omega)
  refine ⟨?_, ?_, ?_⟩
  · simp only [hostIndex, hs]
    omega
  · rw [hostOffset, hs, offset_eq]
    omega
  · apply UInt64.toNat_inj.1
    simp only [HostAddress.toNat_pageBase, hs]
    omega

/-- A byte of the line of `host` that lies no lower is reached from there. -/
theorem host_add_offset {b : HostAddress} (hm : host.toNat % 4096 = v.toNat % 4096)
    (hi : hostIndex b = hostIndex host) (hp : b.pageBase = host.pageBase)
    (hle : offset v ≤ hostOffset b) : host + UInt64.ofNat (hostOffset b - offset v) = b := by
  have hlt := b.toNat_lt
  have hpage := congrArg UInt64.toNat hp
  simp only [HostAddress.toNat_pageBase] at hpage
  simp only [offset_eq, hostOffset, hostIndex] at hle hi ⊢
  apply UInt64.toNat_inj.1
  rw [UInt64.toNat_add, UInt64.toNat_ofNat']
  omega

/-- A load gives what is seen and changes nothing of it. -/
theorem read_spec (h : Coherent c m) (hm : host.toNat % 4096 = v.toNat % 4096) (w : Width)
    (phys : GuestAddress) (fits : Fits v w) :
    (c.read m w v host phys fits).1 =
        Word.ofBytes w (gather (c.seen m) (fun i => host + UInt64.ofNat i) w.bytes) ∧
      Coherent (c.read m w v host phys fits).2.1 (c.read m w v host phys fits).2.2 ∧
        (c.read m w v host phys fits).2.1.seen (c.read m w v host phys fits).2.2 = c.seen m := by
  have hv : index v = hostIndex host := (hostIndex_of_mod hm).symm
  obtain ⟨hc, hs, hh⟩ := touch_spec h hv phys
  have he : (c.read m w v host phys fits).1 =
      Word.ofBytes w (((c.touch m v host phys).2.1.line (index v)
        (c.touch m v host phys).1).slice (offset v) w.bytes) := rfl
  refine ⟨?_, hc, hs⟩
  rw [he, ← hs, hv, Line.slice, gather]
  congr 1
  refine List.map_congr_left fun i hi => ?_
  obtain ⟨hix, ho, hp⟩ := host_add hm fits (List.mem_range.1 hi)
  have hh' : ((c.touch m v host phys).2.1.line (hostIndex (host + UInt64.ofNat i))
      (c.touch m v host phys).1).tag.holds (host + UInt64.ofNat i) = true := by
    rw [hix, Tag.holds_congr _ hp]
    exact hh
  rw [seen_of_holds hc hh', hix, ho]

/-- Storing into a line changes what is seen of exactly the bytes stored. -/
theorem put_spec (h : Coherent c m) (hm : host.toNat % 4096 = v.toNat % 4096) {way : Way}
    (hh : (c.line (hostIndex host) way).tag.holds host = true) {w : Width} (fits : Fits v w)
    {l : Line} {x : Word w} (hl : l.tag = { (c.line (hostIndex host) way).tag with dirty := true })
    (hd : l.data = ((c.line (hostIndex host) way).put (offset v) x.bytes).data) :
    Coherent (c.setLine (hostIndex host) way l) m ∧
      Puts (c.seen m) (fun i => host + UInt64.ofNat i) x.bytes
        ((c.setLine (hostIndex host) way l).seen m) := by
  have hi := hostIndex_lt host
  have hlen : x.bytes.length = w.bytes := Word.length_bytes x
  have hfit : offset v + x.bytes.length ≤ lineSize := hlen ▸ fits
  obtain ⟨hvalid, hpage⟩ := Tag.holds_iff.1 hh
  have hc : Coherent (c.setLine (hostIndex host) way l) m := by
    refine h.setLine hi (fun _ => ?_) (fun other ho hv _ he => ?_) fun _ hf => ?_
    · rw [hl]
      exact h.aligned _ hi way hvalid
    · rw [hl] at he
      exact ho (h.unique _ hi other way hv hvalid he)
    · rw [hl] at hf
      cases hf
  have hholds : ∀ b, l.tag.holds b = (c.line (hostIndex host) way).tag.holds b := by
    intro b
    rw [hl]
    rfl
  refine ⟨hc, fun i hib => ?_, fun b hb => ?_⟩
  · obtain ⟨hix, ho, hp⟩ := host_add hm fits (hlen ▸ hib)
    have hk : offset v + i < lineSize := Nat.lt_of_lt_of_le (by omega) hfit
    rw [seen_setLine h hc hi, hholds, Tag.holds_congr _ hp, if_pos ⟨hix, hh⟩, hd, ho,
      get_put _ hfit hk, dif_pos ⟨Nat.le_add_right _ _, by omega⟩]
    simp only [Nat.add_sub_cancel_left]
  · rw [seen_setLine h hc hi, hholds]
    split
    · rename_i hin
      obtain ⟨hix, hb'⟩ := hin
      rw [← hix] at hd hb'
      rw [hd, get_put _ hfit (hostOffset_lt b), seen_of_holds h hb', dif_neg]
      rintro ⟨hle, hlt⟩
      exact hb _ hlt (host_add_offset hm hix
        ((Tag.holds_iff.1 hb').2.symm.trans (hix ▸ hpage)) hle)
    · rfl

/-- A store puts its bytes into what is seen. -/
theorem write_spec (h : Coherent c m) (hm : host.toNat % 4096 = v.toNat % 4096) {w : Width}
    (phys : GuestAddress) (x : Word w) (fits : Fits v w) :
    Coherent (c.write m v host phys x fits).1 (c.write m v host phys x fits).2 ∧
      Puts (c.seen m) (fun i => host + UInt64.ofNat i) x.bytes
        ((c.write m v host phys x fits).1.seen (c.write m v host phys x fits).2) := by
  have hv : index v = hostIndex host := (hostIndex_of_mod hm).symm
  obtain ⟨hc, hs, hh⟩ := touch_spec h hv phys
  rw [← hs]
  simp only [write, hv]
  exact put_spec hc hm hh fits rfl rfl

theorem sameLine_iff {b : HostAddress} :
    b.toNat / 64 = host.toNat / 64 ↔
      hostIndex b = hostIndex host ∧ b.pageBase = host.pageBase := by
  rw [← UInt64.toNat_inj, HostAddress.toNat_pageBase, HostAddress.toNat_pageBase]
  simp only [hostIndex]
  omega

/-- Writing a line back and dropping it changes nothing that is seen. -/
theorem flush_spec (h : Coherent c m) {i : Nat} (hi : i < setCount) (way : Way) :
    Coherent ((c.writeBack m i way).1.clear i way) (c.writeBack m i way).2 ∧
      ((c.writeBack m i way).1.clear i way).seen (c.writeBack m i way).2 = c.seen m := by
  have hw := h.writeBack hi way
  refine ⟨hw.clear hi way, ?_⟩
  rw [seen_clear_of_clean hw hi (clean_writeBack m hi), seen_writeBack h hi]

/-- No operation on the line of an address makes a cache incoherent. -/
theorem Coherent.hitOp (h : Coherent c m) (op : Op) (v : GuestAddress) (host : HostAddress) :
    Coherent (c.hitOp m op v host).1 (c.hitOp m op v host).2 := by
  have hi := index_lt v
  rw [Cache.hitOp]
  cases (c.set (index v)).find? host with
  | none => exact h
  | some way =>
    cases op with
    | hitInvalidate => exact h.clear hi way
    | hitWritebackInvalidate => exact (flush_spec h hi way).1
    | hitWriteback => exact h.writeBack hi way
    | _ => exact h

/-- Only dropping a line without writing it back changes what is seen. -/
theorem seen_hitOp (h : Coherent c m) {op : Op} (hop : op ≠ .hitInvalidate) (v : GuestAddress)
    (host : HostAddress) :
    (c.hitOp m op v host).1.seen (c.hitOp m op v host).2 = c.seen m := by
  have hi := index_lt v
  rw [Cache.hitOp]
  cases (c.set (index v)).find? host with
  | none => rfl
  | some way =>
    cases op with
    | hitInvalidate => exact absurd rfl hop
    | hitWritebackInvalidate => exact (flush_spec h hi way).2
    | hitWriteback => exact seen_writeBack h hi way
    | _ => rfl

/-- Dropping the line of an address leaves memory as it is and uncovers it under the 64 bytes around
the address, whether or not the cache held them. -/
theorem hitInvalidate_spec (h : Coherent c m) (hm : host.toNat % 4096 = v.toNat % 4096) :
    (c.hitOp m .hitInvalidate v host).2 = m ∧ ∀ b,
      (c.hitOp m .hitInvalidate v host).1.seen m b =
        if b.toNat / 64 = host.toNat / 64 then m.byte b else c.seen m b := by
  have hv : index v = hostIndex host := (hostIndex_of_mod hm).symm
  rw [Cache.hitOp]
  cases hf : (c.set (index v)).find? host with
  | none =>
    refine ⟨rfl, fun b => ?_⟩
    show c.seen m b = _
    split
    · rename_i hb
      obtain ⟨hix, hp⟩ := sameLine_iff.1 hb
      refine seen_of_free fun way => ?_
      rw [hix, Tag.holds_congr _ hp, ← hv]
      exact LineSet.find?_eq_none hf way
    · rfl
  | some way =>
    have hh : (c.line (index v) way).tag.holds host = true := LineSet.find?_eq_some hf
    obtain ⟨hvalid, hpage⟩ := Tag.holds_iff.1 hh
    refine ⟨rfl, fun b => (seen_clear h (index_lt v) way b).trans ?_⟩
    simp only [sameLine_iff, Tag.holds_iff, hvalid, true_and, hpage, ← hv, eq_comm (a := b.pageBase)]

theorem Coherent.indexOp (h : Coherent c m) {op : Op} (hop : op ≠ .indexStoreTag)
    (a : GuestAddress) (packed : UInt64) :
    Coherent (c.indexOp m op a packed).2.1 (c.indexOp m op a packed).2.2 := by
  cases op with
  | indexStoreTag => exact absurd rfl hop
  | indexWritebackInvalidate => exact (flush_spec h (index_lt a) (wayOf a)).1
  | indexInvalidate => exact h.clear (index_lt a) (wayOf a)
  | _ => exact h

theorem seen_indexOp (h : Coherent c m) {op : Op} (hop : op ≠ .indexStoreTag)
    (hop' : op ≠ .indexInvalidate) (a : GuestAddress) (packed : UInt64) :
    (c.indexOp m op a packed).2.1.seen (c.indexOp m op a packed).2.2 = c.seen m := by
  cases op with
  | indexStoreTag => exact absurd rfl hop
  | indexInvalidate => exact absurd rfl hop'
  | indexWritebackInvalidate => exact (flush_spec h (index_lt a) (wayOf a)).2
  | _ => rfl

/-- Dropping a line by set and way leaves memory as it is and uncovers it under that line. -/
theorem indexInvalidate_spec (h : Coherent c m) (a : GuestAddress) (packed : UInt64) :
    (c.indexOp m .indexInvalidate a packed).2.2 = m ∧ ∀ b,
      (c.indexOp m .indexInvalidate a packed).2.1.seen m b =
        if hostIndex b = index a ∧ (c.line (index a) (wayOf a)).tag.holds b = true then m.byte b
        else c.seen m b :=
  ⟨rfl, seen_clear h (index_lt a) (wayOf a)⟩

end GuestMemory.Cache
