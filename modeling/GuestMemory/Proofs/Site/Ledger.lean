import GuestMemory.Site.Fault
import Mathlib.Data.List.Induction

/-!
What a history of faults adds up to. The ledger of a context has its calls with what came of each;
from the ledger alone one reads which records are live, which diversions were tried and which
succeeded. The table of the context never says anything else.
-/
namespace GuestMemory.Site

/-- Looking up among the entries whose keys pass a test. -/
theorem lookup_filter {α β : Type} [DecidableEq α] (p : α → Bool) (l : List (α × β))
    (k : α) : (l.filter fun e => p e.1).lookup k = if p k then l.lookup k else none := by
  induction l with
  | nil => simp
  | cons e l ih =>
    obtain ⟨k', b⟩ := e
    by_cases hk : k = k'
    · subst hk
      by_cases hp : p k <;> simp [hp, ih]
    · have hb : (k == k') = false := beq_false_of_ne hk
      by_cases hp : p k' <;> simp [List.lookup_cons, hp, hb, ih]

/-- One more element is new, or has come before. -/
theorem eraseDups_concat {α : Type} [DecidableEq α] (l : List α) (a : α) :
    (l ++ [a]).eraseDups = if a ∈ l then l.eraseDups else l.eraseDups ++ [a] := by
  rw [List.eraseDups_append]
  by_cases h : a ∈ l <;> simp [List.removeAll, h, List.eraseDups_cons]

theorem nodup_eraseDups {α : Type} [DecidableEq α] (l : List α) : l.eraseDups.Nodup := by
  induction l using List.reverseRecOn with
  | nil => simp
  | append_singleton l a ih =>
    rw [eraseDups_concat]
    split
    · exact ih
    · rename_i h
      refine List.nodup_append.2 ⟨ih, List.pairwise_singleton _ a, fun b hb c hc => ?_⟩
      rintro rfl
      rw [List.mem_singleton.1 hc, List.mem_eraseDups] at hb
      exact h hb

namespace Table

variable (t : Table) (site k : HostAddress) (r : Record) (pc pc' : GuestAddress)

theorem get?_erase : (t.erase site).get? k = if site = k then none else t.get? k := by
  rw [get?, erase, lookup_filter (· != site)]
  by_cases h : site = k <;> simp [h, Ne.symm, get?]

theorem get?_register :
    (t.register site r).get? k = if site = k then some r else t.get? k := by
  have he := t.get?_erase site k
  rw [get?] at he
  rw [get?, register, List.lookup_cons, he]
  by_cases h : site = k
  · simp [h]
  · have hb : (k == site) = false := beq_false_of_ne (Ne.symm h)
    simp [h, hb]

theorem get?_removeRange (first last : HostAddress) :
    (t.removeRange first last).get? k = if first ≤ k ∧ k < last then none else t.get? k := by
  rw [get?, removeRange, lookup_filter fun k => !(first ≤ k && k < last)]
  by_cases h : first ≤ k ∧ k < last
  · simp [h]
  · simp [h, get?]

@[simp] theorem get?_mark : (t.mark pc).get? k = t.get? k := by
  rw [mark]
  split <;> rfl

theorem isFaulting_iff : t.isFaulting pc = true ↔ pc ∈ t.faulting := List.contains_iff_mem

theorem mem_faulting_mark : pc ∈ (t.mark pc').faulting ↔ pc = pc' ∨ pc ∈ t.faulting := by
  rw [mark]
  by_cases h : t.isFaulting pc' = true
  · rw [if_pos h]
    have hm := (t.isFaulting_iff pc').1 h
    constructor
    · exact .inr
    · rintro (rfl | hp)
      · exact hm
      · exact hp
  · rw [if_neg h]
    exact List.mem_cons

theorem requests_mark :
    (t.mark pc).requests = if pc ∈ t.faulting then t.requests else t.requests ++ [pc] := by
  simp only [mark, t.isFaulting_iff pc]
  split <;> rfl

end Table

inductive Call where
  | register (site : HostAddress) (r : Record)
  | removeRange (first last : HostAddress)
  | setPatcher (p : Patcher)
  | fault (pc a : HostAddress)
  | takeRequests
  | clear

structure Effect where
  outcome : Option FaultOutcome := none
  requests : List GuestAddress := []
  events : List Event := []

namespace Call

def isClear : Call → Bool
  | clear => true
  | _ => false

def registered? : Call → Option (HostAddress × Record)
  | register site r => some (site, r)
  | _ => none

end Call

namespace Effect

def patched? (e : Effect) : Option GuestAddress :=
  match e.outcome with
  | some (.patched pc _) => some pc
  | _ => none

def tries (e : Effect) : List (HostAddress × Record) :=
  e.events.filterMap fun
    | .patchTried site r => some (site, r)
    | _ => none

end Effect

abbrev Ledger := List (Call × Effect)

namespace Ledger

def sinceClear (l : Ledger) : Ledger := (l.reverse.takeWhile fun e => !e.1.isClear).reverse

/-- The diversions that succeeded since the last clearing, in their order. -/
def patched (l : Ledger) : List GuestAddress := l.sinceClear.filterMap (·.2.patched?)

/-- The counters that were given out for recompilation since the last clearing. -/
def handedOut (l : Ledger) : List GuestAddress := l.sinceClear.flatMap (·.2.requests)

def tries (l : Ledger) : List (HostAddress × Record) := l.flatMap (·.2.tries)

theorem sinceClear_concat (l : Ledger) (c : Call) (e : Effect) :
    sinceClear (l ++ [(c, e)]) = if c.isClear then [] else l.sinceClear ++ [(c, e)] := by
  rw [sinceClear, List.reverse_append, List.reverse_singleton, List.singleton_append,
    List.takeWhile_cons]
  cases c.isClear with
  | false => exact List.reverse_cons
  | true => rfl

theorem patched_concat (l : Ledger) (c : Call) (e : Effect) :
    patched (l ++ [(c, e)]) = if c.isClear then [] else l.patched ++ e.patched?.toList := by
  rw [patched, sinceClear_concat]
  split
  · rfl
  · rw [List.filterMap_append, patched]
    cases h : e.patched? <;> simp [h]

theorem handedOut_concat (l : Ledger) (c : Call) (e : Effect) :
    handedOut (l ++ [(c, e)]) = if c.isClear then [] else l.handedOut ++ e.requests := by
  rw [handedOut, sinceClear_concat]
  split
  · rfl
  · rw [List.flatMap_append, List.flatMap_singleton, handedOut]

theorem tries_concat (l : Ledger) (c : Call) (e : Effect) :
    tries (l ++ [(c, e)]) = l.tries ++ e.tries := by
  rw [tries, List.flatMap_append, List.flatMap_singleton, tries]

end Ledger

namespace FaultContext

/-- What handling a fault can do. -/
inductive Handles (ctx : FaultContext) (pc a : HostAddress) :
    FaultOutcome × FaultContext × List Event → Prop where
  | outside (out : ctx.contains a = false) : Handles ctx pc a (.outside, ctx, [])
  | unknown (inside : ctx.contains a = true) (gone : ctx.table.get? pc = none) :
      Handles ctx pc a
        (.unhandled, ctx, [.siteUnknown (a - ctx.base).toUInt32 (.unknownSite pc)])
  | refused {r cause} (inside : ctx.contains a = true) (live : ctx.table.get? pc = some r)
      (patch : ctx.patcher.patch ctx.code pc r = .error (.refused cause)) :
      Handles ctx pc a (.unhandled, { ctx with table := ctx.table.erase pc },
        [.patchTried pc r, .patchFailed pc r (a - ctx.base).toUInt32 cause])
  | overflow {r} (inside : ctx.contains a = true) (live : ctx.table.get? pc = some r)
      (patch : ctx.patcher.patch ctx.code pc r = .error .overflow) :
      Handles ctx pc a (.overflow, { ctx with table := ctx.table.erase pc }, [.patchTried pc r])
  | patched {r code} (inside : ctx.contains a = true) (live : ctx.table.get? pc = some r)
      (patch : ctx.patcher.patch ctx.code pc r = .ok code) :
      Handles ctx pc a (.patched r.guestPc (a - ctx.base).toUInt32,
        { ctx with table := (ctx.table.erase pc).mark r.guestPc, code },
        [.patchTried pc r, .patched pc r (a - ctx.base).toUInt32])

/-- What handling a fault does is one of the things that it can do. -/
theorem handles_handle (ctx : FaultContext) (pc a : HostAddress) :
    ctx.Handles pc a (ctx.handle pc a) := by
  rw [handle]
  cases hc : ctx.contains a with
  | false => exact .outside hc
  | true =>
    cases hg : ctx.table.get? pc with
    | none =>
      simp only [Table.take, hg]
      exact .unknown hc hg
    | some r =>
      simp only [Table.take, hg]
      cases hp : ctx.patcher.patch ctx.code pc r with
      | ok code => simpa [hp] using Handles.patched hc hg hp
      | error e =>
        cases e with
        | refused cause => simpa [hp] using Handles.refused hc hg hp
        | overflow => simpa [hp] using Handles.overflow hc hg hp

/-- Handling a fault keeps the range whose faults are taken. -/
theorem range_handle (ctx : FaultContext) (pc a : HostAddress) :
    (ctx.handle pc a).2.1.base = ctx.base ∧ (ctx.handle pc a).2.1.size = ctx.size := by
  have h := ctx.handles_handle pc a
  generalize ctx.handle pc a = result at h
  cases h <;> exact ⟨rfl, rfl⟩

def perform (ctx : FaultContext) : Call → Effect × FaultContext
  | .register site r => ({}, { ctx with table := ctx.table.register site r })
  | .removeRange first last => ({}, { ctx with table := ctx.table.removeRange first last })
  | .setPatcher patcher => ({}, { ctx with patcher })
  | .fault pc a =>
    let (outcome, ctx, events) := ctx.handle pc a
    ({ outcome := some outcome, events }, ctx)
  | .takeRequests =>
    let (requests, table) := ctx.table.takeRequests
    ({ requests }, { ctx with table })
  | .clear => ({}, { ctx with table := {} })

def after (ctx : FaultContext) (calls : List Call) : FaultContext :=
  calls.foldl (fun ctx c => (ctx.perform c).2) ctx

def ledger (ctx : FaultContext) : List Call → Ledger
  | [] => []
  | c :: cs => (c, (ctx.perform c).1) :: (ctx.perform c).2.ledger cs

theorem after_concat (ctx : FaultContext) (calls : List Call) (c : Call) :
    ctx.after (calls ++ [c]) = ((ctx.after calls).perform c).2 := by
  simp [after]

theorem ledger_concat (ctx : FaultContext) (calls : List Call) (c : Call) :
    ctx.ledger (calls ++ [c]) = ctx.ledger calls ++ [(c, ((ctx.after calls).perform c).1)] := by
  induction calls generalizing ctx with
  | nil => rfl
  | cons d ds ih => simp [ledger, ih, after]

/-- A call after which an earlier record of the site counts no more. -/
def Ends (ctx : FaultContext) (site : HostAddress) : Call → Prop
  | .register site' _ => site' = site
  | .removeRange first last => first ≤ site ∧ site < last
  | .fault pc a => pc = site ∧ ctx.contains a = true
  | .clear => True
  | .setPatcher _ | .takeRequests => False

/-- The latest registration of a site had this record, and nothing has used it up or removed it. -/
def Live (ctx : FaultContext) (calls : List Call) (site : HostAddress) (r : Record) : Prop :=
  ∃ before since, calls = before ++ .register site r :: since ∧ ∀ c ∈ since, ¬ctx.Ends site c

/-- A record is live after a call that registers it, or that does not end it. -/
theorem live_concat (ctx : FaultContext) (calls : List Call) (c : Call) (site : HostAddress)
    (r : Record) :
    ctx.Live (calls ++ [c]) site r ↔
      c = .register site r ∨ ¬ctx.Ends site c ∧ ctx.Live calls site r := by
  constructor
  · rintro ⟨before, since, h, hs⟩
    rcases List.eq_nil_or_concat since with rfl | ⟨since, d, rfl⟩
    · exact .inl (List.cons.inj (List.append_inj_right' h rfl)).1
    · rw [List.concat_eq_append, ← List.cons_append, ← List.append_assoc] at h
      have hcalls := List.append_inj_left' h rfl
      have hlast := (List.cons.inj (List.append_inj_right' h rfl)).1
      subst hlast
      exact .inr ⟨hs _ (by simp), before, since, hcalls, fun e he => hs e (by simp [he])⟩
  · rintro (rfl | ⟨hc, before, since, rfl, hs⟩)
    · exact ⟨calls, [], rfl, by simp⟩
    · refine ⟨before, since ++ [c], by simp, fun d hd => ?_⟩
      rcases List.mem_append.1 hd with hd | hd
      · exact hs d hd
      · exact List.mem_singleton.1 hd ▸ hc

variable {ctx : FaultContext} {calls : List Call}

/-- A call changes no range. -/
theorem range_perform (ctx : FaultContext) (c : Call) :
    (ctx.perform c).2.base = ctx.base ∧ (ctx.perform c).2.size = ctx.size := by
  cases c with
  | fault pc a => exact ctx.range_handle pc a
  | _ => exact ⟨rfl, rfl⟩

theorem range_after (ctx : FaultContext) (calls : List Call) :
    (ctx.after calls).base = ctx.base ∧ (ctx.after calls).size = ctx.size := by
  induction calls using List.reverseRecOn with
  | nil => exact ⟨rfl, rfl⟩
  | append_singleton cs c ih =>
    obtain ⟨hb, hs⟩ := (ctx.after cs).range_perform c
    rw [after_concat]
    exact ⟨hb.trans ih.1, hs.trans ih.2⟩

theorem contains_after (ctx : FaultContext) (calls : List Call) (a : HostAddress) :
    (ctx.after calls).contains a = ctx.contains a := by
  rw [contains, contains, (ctx.range_after calls).1, (ctx.range_after calls).2]

/-- The record of a site after one more call. -/
theorem get?_perform (ctx : FaultContext) (c : Call) (site : HostAddress) (r : Record) :
    (ctx.perform c).2.table.get? site = some r ↔
      c = .register site r ∨ ¬ctx.Ends site c ∧ ctx.table.get? site = some r := by
  cases c with
  | register site' r' =>
    simp only [perform, Table.get?_register, Ends, Call.register.injEq]
    by_cases h : site' = site <;> simp [h]
  | removeRange first last =>
    simp only [perform, Table.get?_removeRange, Ends, reduceCtorEq, false_or]
    by_cases h : first ≤ site ∧ site < last <;> simp [h]
  | setPatcher p => simp [perform, Ends]
  | takeRequests => simp [perform, Ends, Table.takeRequests, Table.get?]
  | clear => simp [perform, Ends, Table.get?]
  | fault pc a =>
    have h := ctx.handles_handle pc a
    simp only [perform, Ends, reduceCtorEq, false_or]
    generalize ctx.handle pc a = result at h
    cases h with
    | outside out => simp [out]
    | unknown inside gone =>
      simp only [inside, and_true]
      constructor
      · intro hr
        refine ⟨?_, hr⟩
        rintro rfl
        rw [gone] at hr
        cases hr
      · exact And.right
    | refused inside | overflow inside =>
      simp only [inside, and_true, Table.get?_erase]
      by_cases he : pc = site <;> simp [he]
    | patched inside =>
      simp only [inside, and_true, Table.get?_mark, Table.get?_erase]
      by_cases he : pc = site <;> simp [he]

/-- A fault asks for a diversion exactly if it is in the range and its site has a record. -/
theorem tries_fault (ctx : FaultContext) (pc a : HostAddress) :
    (ctx.perform (.fault pc a)).1.tries =
      if ctx.contains a then ((ctx.table.get? pc).map (Prod.mk pc)).toList else [] := by
  have h := ctx.handles_handle pc a
  simp only [perform]
  generalize ctx.handle pc a = result at h
  cases h with
  | outside out => simp [out, Effect.tries]
  | unknown inside gone => simp [inside, gone, Effect.tries]
  | refused inside live | overflow inside live | patched inside live =>
    simp [inside, live, Effect.tries]

/-- The patcher is asked for the site of a fault in the window whose record is in the table. -/
theorem mem_tries_perform (ctx : FaultContext) (c : Call) (site : HostAddress) (r : Record) :
    (site, r) ∈ (ctx.perform c).1.tries ↔
      ∃ a, c = .fault site a ∧ ctx.contains a = true ∧ ctx.table.get? site = some r := by
  cases c with
  | fault pc a =>
    rw [tries_fault]
    by_cases h : ctx.contains a = true
    · simp only [h, if_true, Option.mem_toList, Option.map_eq_some_iff, Prod.mk.injEq,
        Call.fault.injEq]
      constructor
      · rintro ⟨r', hg, rfl, rfl⟩
        exact ⟨a, ⟨rfl, rfl⟩, h, hg⟩
      · rintro ⟨a', ⟨rfl, rfl⟩, -, hg⟩
        exact ⟨r, hg, rfl, rfl⟩
    · simp only [h, Bool.false_eq_true, if_false, List.not_mem_nil, false_iff]
      rintro ⟨a', he, hin, -⟩
      cases he
      exact h hin
  | _ => simp [perform, Effect.tries]

theorem length_tries_perform (ctx : FaultContext) (c : Call) :
    (ctx.perform c).1.tries.length ≤ 1 := by
  cases c with
  | fault pc a =>
    rw [tries_fault]
    split
    · cases ctx.table.get? pc <;> simp
    · simp
  | _ => simp [perform, Effect.tries]

/-- A diversion that a call tries, or a record that it leaves, was there before or is registered by
it. -/
theorem count_perform (ctx : FaultContext) (c : Call) (site : HostAddress) (r : Record) :
    (ctx.perform c).1.tries.count (site, r) +
        (if (ctx.perform c).2.table.get? site = some r then 1 else 0) ≤
      (if ctx.table.get? site = some r then 1 else 0) +
        ([c].filterMap Call.registered?).count (site, r) := by
  by_cases hc : c = .register site r
  · subst hc
    have hnew : ([.register site r].filterMap Call.registered?).count (site, r) = 1 := by
      simp [Call.registered?]
    have hnone : (ctx.perform (.register site r)).1.tries = [] := rfl
    rw [hnew, hnone, List.count_nil]
    split <;> omega
  · have hget := ctx.get?_perform c site r
    rw [or_iff_right hc] at hget
    by_cases hm : (site, r) ∈ (ctx.perform c).1.tries
    · -- the diversion that is tried uses up the record
      obtain ⟨a, rfl, hin, hg⟩ := (ctx.mem_tries_perform c site r).1 hm
      have hend : ¬(ctx.perform (.fault site a)).2.table.get? site = some r := by
        rw [hget]
        exact fun hn => hn.1 ⟨rfl, hin⟩
      have hone : (ctx.perform (.fault site a)).1.tries.count (site, r) ≤ 1 :=
        Nat.le_trans List.count_le_length (ctx.length_tries_perform (.fault site a))
      rw [if_pos hg, if_neg hend]
      omega
    · rw [List.count_eq_zero_of_not_mem hm]
      by_cases hg : (ctx.perform c).2.table.get? site = some r
      · rw [if_pos hg, if_pos (hget.1 hg).2]
        omega
      · rw [if_neg hg]
        omega

/-- The context agrees with its ledger, which began when its table was empty. -/
structure Accounted (ctx : FaultContext) (calls : List Call) : Prop where
  live : ∀ site r, (ctx.after calls).table.get? site = some r ↔ ctx.Live calls site r
  faulting : ∀ pc, pc ∈ (ctx.after calls).table.faulting ↔ pc ∈ (ctx.ledger calls).patched
  requests : (ctx.ledger calls).handedOut ++ (ctx.after calls).table.requests =
    (ctx.ledger calls).patched.eraseDups
  tries : ∀ site r, (ctx.ledger calls).tries.count (site, r) +
      (if (ctx.after calls).table.get? site = some r then 1 else 0) ≤
    (calls.filterMap Call.registered?).count (site, r)

theorem accounted_nil (base : HostAddress) (size : Nat) (patcher : Patcher) (code : X64.Code) :
    Accounted { base, size, patcher, code } [] := by
  refine ⟨fun site r => ?_, fun pc => ?_, rfl, fun site r => ?_⟩
  · simp [after, Table.get?, Live]
  · simp [after, ledger, Ledger.patched, Ledger.sinceClear]
  · simp [after, ledger, Ledger.tries, Table.get?]

/-- What a call does to the marks and the requests, and what it reports of them. -/
theorem marks_perform (ctx : FaultContext) (c : Call) :
    (c.isClear = true ∧ (ctx.perform c).2.table.faulting = [] ∧
        (ctx.perform c).2.table.requests = []) ∨
      c.isClear = false ∧
        (∀ pc, pc ∈ (ctx.perform c).2.table.faulting ↔
          pc ∈ ctx.table.faulting ∨ pc ∈ (ctx.perform c).1.patched?) ∧
        (ctx.perform c).1.requests ++ (ctx.perform c).2.table.requests =
          ctx.table.requests ++
            (ctx.perform c).1.patched?.toList.filter (· ∉ ctx.table.faulting) := by
  cases c with
  | clear => exact .inl ⟨rfl, rfl, rfl⟩
  | register | removeRange | setPatcher =>
    exact .inr ⟨rfl, fun pc => (or_iff_left (Option.not_mem_none pc)).symm,
      (List.append_nil _).symm⟩
  | takeRequests =>
    exact .inr ⟨rfl, fun pc => (or_iff_left (Option.not_mem_none pc)).symm, rfl⟩
  | fault pc a =>
    refine .inr ⟨rfl, ?_⟩
    have h := ctx.handles_handle pc a
    simp only [perform]
    generalize ctx.handle pc a = result at h
    cases h with
    | outside | unknown => simp [Effect.patched?]
    | refused | overflow => simp [Effect.patched?, Table.erase]
    | patched =>
      simp only [Effect.patched?, Table.mem_faulting_mark, Table.requests_mark, Table.erase]
      refine ⟨fun pc => by simp [or_comm, eq_comm], ?_⟩
      split <;> simp [*]

/-- One call more is accounted for. -/
theorem Accounted.concat (h : ctx.Accounted calls) (c : Call) : ctx.Accounted (calls ++ [c]) := by
  have hafter := ctx.after_concat calls c
  have hledger := ctx.ledger_concat calls c
  have hends : ∀ site, (ctx.after calls).Ends site c ↔ ctx.Ends site c := by
    intro site
    cases c <;> simp [Ends, contains_after]
  have hlive : ∀ site r, (ctx.after (calls ++ [c])).table.get? site = some r ↔
      ctx.Live (calls ++ [c]) site r := by
    intro site r
    rw [hafter, get?_perform, live_concat, hends, h.live]
  refine ⟨hlive, fun pc => ?_, ?_, fun site r => ?_⟩
  · rw [hafter, hledger, Ledger.patched_concat]
    rcases (ctx.after calls).marks_perform c with ⟨hc, hf, -⟩ | ⟨hc, hf, -⟩
    · simp [hc, hf]
    · simp [hc, hf, h.faulting]
  · rw [hafter, hledger, Ledger.patched_concat, Ledger.handedOut_concat]
    rcases (ctx.after calls).marks_perform c with ⟨hc, -, hr⟩ | ⟨hc, -, hr⟩
    · simp [hc, hr]
    · simp only [hc, Bool.false_eq_true, if_false]
      rw [List.append_assoc, hr, ← List.append_assoc, h.requests]
      cases hp : ((ctx.after calls).perform c).1.patched? with
      | none => simp
      | some pc =>
        rw [Option.toList_some, eraseDups_concat]
        by_cases hm : pc ∈ (ctx.ledger calls).patched <;> simp [h.faulting, hm]
  · rw [hafter, hledger, Ledger.tries_concat, List.filterMap_append, List.count_append,
      List.count_append]
    have hold := h.tries site r
    have hcall := (ctx.after calls).count_perform c site r
    omega

theorem accounted (base : HostAddress) (size : Nat) (patcher : Patcher) (code : X64.Code)
    (calls : List Call) : Accounted { base, size, patcher, code } calls := by
  induction calls using List.reverseRecOn with
  | nil => exact accounted_nil base size patcher code
  | append_singleton cs c ih => exact ih.concat c

/-- A diversion succeeds when there is one to be tried and the patcher carries it out. -/
theorem handle_eq_patched (ctx : FaultContext) (pc a : HostAddress) (guestPc guest : GuestAddress) :
    (ctx.handle pc a).1 = .patched guestPc guest ↔
      ctx.contains a = true ∧ guest = (a - ctx.base).toUInt32 ∧
        ∃ r code, ctx.table.get? pc = some r ∧ ctx.patcher.patch ctx.code pc r = .ok code ∧
          guestPc = r.guestPc := by
  have h := ctx.handles_handle pc a
  generalize ctx.handle pc a = result at h
  cases h with
  | outside out => simp [out]
  | unknown inside gone => simp [gone]
  | refused inside live patch | overflow inside live patch => simp [live, patch]
  | patched inside live patch => simp [inside, live, patch, eq_comm, and_comm]

/-- A fault of which nothing comes marks no counter and asks for nothing. -/
theorem marks_handle (ctx : FaultContext) (pc a : HostAddress)
    (h : ∀ r code, ctx.table.get? pc = some r → ctx.patcher.patch ctx.code pc r ≠ .ok code) :
    (ctx.handle pc a).2.1.table.faulting = ctx.table.faulting ∧
      (ctx.handle pc a).2.1.table.requests = ctx.table.requests := by
  have hh := ctx.handles_handle pc a
  generalize ctx.handle pc a = result at hh
  cases hh with
  | patched inside live patch => exact absurd patch (h _ _ live)
  | _ => exact ⟨rfl, rfl⟩

/-- After every history: a call has the patcher try a diversion exactly when it is a fault in the
range at a site with a live record, once and with that record, so no registration is tried twice;
the diversion succeeds if the patcher carries it out. Faulting are the counters of the diversions
that succeeded since the last clearing, and what was given out since then, with what still waits,
has each of them once, in the order of the first success. Any other fault changes no mark and no
request, and one outside the range nothing at all. -/
theorem faults_accounted (base : HostAddress) (size : Nat) (patcher : Patcher) (code : X64.Code)
    (calls : List Call) :
    let fresh : FaultContext := { base, size, patcher, code }
    let ctx := fresh.after calls
    let ledger := fresh.ledger calls
    (∀ c site r, (site, r) ∈ (ctx.perform c).1.tries ↔
        ∃ a, c = .fault site a ∧ fresh.contains a = true ∧ fresh.Live calls site r) ∧
      (∀ c, (ctx.perform c).1.tries.length ≤ 1) ∧
      (∀ site r, ledger.tries.count (site, r) ≤
        (calls.filterMap Call.registered?).count (site, r)) ∧
      (∀ pc a guestPc guest, (ctx.handle pc a).1 = .patched guestPc guest ↔
        fresh.contains a = true ∧ guest = (a - base).toUInt32 ∧
          ∃ r code, fresh.Live calls pc r ∧ ctx.patcher.patch ctx.code pc r = .ok code ∧
            guestPc = r.guestPc) ∧
      (∀ pc, ctx.table.isFaulting pc = true ↔ pc ∈ ledger.patched) ∧
      ledger.handedOut ++ ctx.table.requests = ledger.patched.eraseDups ∧
      (ledger.handedOut ++ ctx.table.requests).Nodup ∧
      ∀ pc a, (fresh.contains a = false → ctx.handle pc a = (.outside, ctx, [])) ∧
        ((∀ r code, fresh.Live calls pc r → ctx.patcher.patch ctx.code pc r ≠ .ok code) →
          (ctx.handle pc a).2.1.table.faulting = ctx.table.faulting ∧
            (ctx.handle pc a).2.1.table.requests = ctx.table.requests) := by
  intro fresh ctx ledger
  have h : fresh.Accounted calls := accounted base size patcher code calls
  have hin : ∀ a, ctx.contains a = fresh.contains a := fresh.contains_after calls
  have hbase : ctx.base = base := (fresh.range_after calls).1
  refine ⟨fun c site r => ?_, ctx.length_tries_perform, fun site r => ?_,
    fun pc a guestPc guest => ?_, fun pc => ?_, h.requests, h.requests ▸ nodup_eraseDups _,
    fun pc a => ⟨fun out => ?_, fun hp => ?_⟩⟩
  · simp only [mem_tries_perform, hin, ← h.live, ctx]
  · exact Nat.le_trans (Nat.le_add_right _ _) (h.tries site r)
  · simp only [handle_eq_patched, hin, hbase, ← h.live, ctx]
  · rw [Table.isFaulting_iff]
    exact h.faulting pc
  · rw [handle, hin, out]
    rfl
  · exact ctx.marks_handle pc a fun r code hr => hp r code ((h.live pc r).1 hr)

end FaultContext

end GuestMemory.Site
