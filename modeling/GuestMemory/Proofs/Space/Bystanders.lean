import GuestMemory.Proofs.Space.Calls

/-!
What most calls leave alone. Devices change where they are accessed, registered or replaced, and
exceptions where the guest loads and stores and where one is taken; all other calls stand by.
-/
namespace GuestMemory.Space

variable {σ : Type} {s : Space σ} {c : Command σ}

def bystanders (s : Space σ) : HandlerTable σ × Option GuestException := (s.handlers, s.pending)

/-- Calls that neither have to do with devices nor raise or deliver exceptions. -/
def Command.StandsBy : Command σ → Prop
  | .register _ | .reassign .. | .readHandler .. | .writeHandler .. | .read .. | .write ..
  | .takeException | .reset | .install _ => False
  | _ => True

theorem bystanders_settle {result : Except MapError (Space σ)}
    (h : ∀ t, result = .ok t → t.bystanders = s.bystanders) :
    (s.settle result).2.bystanders = s.bystanders := by
  cases result with
  | ok t => exact h t rfl
  | error e => rfl

@[simp] theorem bystanders_syncWindow (s : Space σ) (v : GuestAddress) (size : UInt32) :
    (s.syncWindow v size).2.bystanders = s.bystanders := by
  obtain ⟨window, journal, h⟩ := s.syncWindow_eq v size
  rw [h]
  rfl

@[simp] theorem bystanders_storeBytes (s : Space σ) (v : GuestAddress) (bs : List UInt8) :
    (s.storeBytes v bs).bystanders = s.bystanders := by
  induction bs generalizing s v with
  | nil => rfl
  | cons b bs ih =>
    rw [storeBytes, ih]
    split <;> rfl

theorem bystanders_ramWrite {w : Width} (s : Space σ) (v : GuestAddress) (x : Word w) :
    (s.ramWrite v x).2.bystanders = s.bystanders := by
  rw [ramWrite]
  split
  · split <;> simp
  · split <;> rfl

theorem bystanders_cacheOp (s : Space σ) (op : Cache.Op) (v : GuestAddress) (packed : UInt64) :
    (s.cacheOp op v packed).2.bystanders = s.bystanders := by
  rw [cacheOp]
  split
  · split <;> rfl
  · rfl

/-- Such calls leave the devices, and the exception that waits. -/
theorem bystanders_perform (h : c.StandsBy) : (s.perform c).2.bystanders = s.bystanders := by
  cases c with
  | allocate name size protection =>
    rw [perform]
    unfold performAllocate
    cases h : s.allocate name size protection with
    | ok r =>
      obtain ⟨block, t⟩ := r
      obtain ⟨arena, -, rfl⟩ := allocate_eq_ok.1 h
      rfl
    | error e => cases e <;> rfl
  | mapBlock block start size blockSize =>
    refine bystanders_settle fun t ht => ?_
    obtain ⟨-, physical, -, rfl⟩ := mapBlock_eq_ok.1 ht
    rfl
  | mapMemory base start size blockSize =>
    refine bystanders_settle fun t ht => ?_
    obtain ⟨physical, -, rfl⟩ := mapMemory_eq_ok.1 ht
    rfl
  | mapHandler id start size =>
    refine bystanders_settle fun t ht => ?_
    obtain ⟨-, physical, -, rfl⟩ := mapHandler_eq_ok.1 ht
    rfl
  | duplicate target start size =>
    refine bystanders_settle fun t ht => ?_
    obtain ⟨physical, -, rfl⟩ := duplicate_eq_ok.1 ht
    rfl
  | project | projectBlock | projectBuffer | unmap =>
    exact perform_remap_keeps (P := fun t => t.bystanders = s.bystanders) rfl rfl
      fun _ _ => bystanders_syncWindow _ _ _
  | ramWrite w v x => exact s.bystanders_ramWrite v x
  | cacheOp op v packed => exact s.bystanders_cacheOp op v packed
  | fault pc a =>
    rw [perform, performFault_snd, handleFault]
    cases s.window <;> rfl
  | protect block protection =>
    obtain ⟨window, h⟩ := s.protect_eq block protection
    rw [perform, h]
    rfl
  | shutdown =>
    rw [perform, shutdown]
    cases s.window <;> rfl
  | ramRead | loadBytes | control | setPatcher | sites => rfl
  | register | reassign | readHandler | writeHandler | read | write | takeException | reset
  | install => exact absurd h id

end GuestMemory.Space
