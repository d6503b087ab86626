import Mathlib.Logic.Function.Basic
import ShoppingList.Lib.Runs

/-!
# Outboxes

Users hand over writes, each with a block to be called when the write is settled.
The writes of a user are settled in their order and while he is the current
user. A restart keeps the writes and loses the blocks.

A log beside the outbox remembers what was made and what was settled. `Kept` says
that nothing is lost, repeated or reordered between the two.
-/

structure Outbox (U W C E : Type) where
  user : U
  waiting : U → List (W × Option C) := fun _ => []
  called : List (C × Option E) := []

namespace Outbox

variable {U W C E : Type}

@[ext] theorem ext {o o' : Outbox U W C E} (hu : o.user = o'.user) (hw : ∀ u, o.waiting u = o'.waiting u)
    (hc : o.called = o'.called) : o = o' := by
  cases o
  cases o'
  obtain rfl : _ = _ := hu
  obtain rfl : _ = _ := hc
  obtain rfl : _ = _ := funext hw
  rfl

inductive Op (U W C E : Type) where
  | add (write : W) (block : C)
  | settle (error : Option E)
  | switch (user : U)
  | restart (user : U)

variable [DecidableEq U]

/-- The user after the step. -/
def Op.follow (user : U) : Op U W C E → U
  | .switch user' | .restart user' => user'
  | _ => user

/-- The writes that the step makes for `u`. -/
def Op.madeFor (user u : U) : Op U W C E → List W
  | .add write _ => if user = u then [write] else []
  | _ => []

def put (o : Outbox U W C E) (entries : List (W × Option C)) : Outbox U W C E :=
  { o with waiting := Function.update o.waiting o.user entries }

def step (o : Outbox U W C E) : Op U W C E → Option (Outbox U W C E)
  | .add write block => some (o.put (o.waiting o.user ++ [(write, some block)]))
  | .settle error =>
    match o.waiting o.user with
    | [] => none
    | (_, block) :: entries => some { o.put entries with called := o.called ++ (block.map (·, error)).toList }
  | .switch user => some { o with user }
  | .restart user => some { o with user, waiting := fun u => (o.waiting u).map fun entry => (entry.1, none) }

/-- One step or none. -/
def Does (o : Outbox U W C E) : Option (Op U W C E) → Outbox U W C E → Prop
  | none, o' => o' = o
  | some op, o' => o.step op = some o'

section
variable {o : Outbox U W C E}

@[simp] theorem put_waiting_self (o : Outbox U W C E) (entries : List (W × Option C)) :
    (o.put entries).waiting o.user = entries := Function.update_self ..

theorem put_waiting_ne {u : U} (h : u ≠ o.user) (entries : List (W × Option C)) :
    (o.put entries).waiting u = o.waiting u := Function.update_of_ne h ..

theorem step_user {o' : Outbox U W C E} {op : Op U W C E} (h : o.step op = some o') : o'.user = op.follow o.user := by
  cases op with
  | add | switch | restart =>
    cases h
    rfl
  | settle error =>
    cases hw : o.waiting o.user with
    | nil =>
      unfold step at h
      rw [hw] at h
      cases h
    | cons entry entries =>
      unfold step at h
      rw [hw] at h
      cases h
      rfl

theorem step_settle {entry : W × Option C} {entries : List (W × Option C)} (h : o.waiting o.user = entry :: entries)
    (error : Option E) : o.step (.settle error) =
      some { o.put entries with called := o.called ++ (entry.2.map (·, error)).toList } := by
  unfold step
  rw [h]

end

/-! ## The log -/

structure Settled (U W C E : Type) where
  user : U
  entry : W × Option C
  error : Option E

structure Log (U W C E : Type) where
  made : U → List (W × Option C) := fun _ => []
  settled : List (Settled U W C E) := []

def Log.settledOf (log : Log U W C E) (u : U) : List (W × Option C) :=
  (log.settled.filter fun s => s.user = u).map (·.entry)

/-- What is noted of a step taken from `o`. A restart loses the blocks of the
writes that are not settled. -/
def Log.note (log : Log U W C E) (o : Outbox U W C E) : Op U W C E → Log U W C E
  | .add write block => { log with made := Function.update log.made o.user (log.made o.user ++ [(write, some block)]) }
  | .settle error =>
    { log with settled := log.settled ++ (o.waiting o.user).head?.toList.map fun entry => ⟨o.user, entry, error⟩ }
  | .switch _ => log
  | .restart _ =>
    { log with made := fun u => (log.made u).take (log.settledOf u).length ++
        ((log.made u).drop (log.settledOf u).length).map fun entry => (entry.1, none) }

theorem Log.made_note (log : Log U W C E) (o : Outbox U W C E) (op : Op U W C E) (u : U) :
    ((log.note o op).made u).map Prod.fst = (log.made u).map Prod.fst ++ op.madeFor o.user u := by
  cases op with
  | add write block =>
    show (Function.update log.made o.user _ u).map Prod.fst = _ ++ if o.user = u then [write] else []
    by_cases hu : o.user = u
    · subst hu
      rw [Function.update_self, if_pos rfl, List.map_append]
      rfl
    · rw [Function.update_of_ne (Ne.symm hu), if_neg hu, List.append_nil]
  | settle | switch => exact (List.append_nil _).symm
  | restart user =>
    show ((log.made u).take _ ++ ((log.made u).drop _).map _).map Prod.fst = _ ++ []
    rw [List.append_nil, List.map_append, List.map_map]
    show ((log.made u).take _).map Prod.fst ++ ((log.made u).drop _).map Prod.fst = _
    rw [← List.map_append, List.take_append_drop]

/-- The writes made are those settled and those that wait, in this order, and a
block was called for each settled write that still had one. -/
structure Kept (o : Outbox U W C E) (log : Log U W C E) : Prop where
  exact : ∀ u, log.made u = log.settledOf u ++ o.waiting u
  called : o.called = log.settled.filterMap fun s => s.entry.2.map (·, s.error)

theorem Kept.initial (u : U) : Kept ({ user := u } : Outbox U W C E) {} := ⟨fun _ => rfl, rfl⟩

variable {o o' : Outbox U W C E} {log : Log U W C E}

theorem settledOf_append (log : Log U W C E) (u v : U) (entry : W × Option C) (error : Option E) :
    Log.settledOf { log with settled := log.settled ++ [⟨u, entry, error⟩] } v =
      log.settledOf v ++ if u = v then [entry] else [] := by
  unfold Log.settledOf
  rw [List.filter_append, List.map_append]
  congr 1
  by_cases h : u = v
  · simp [h]
  · simp [h]

theorem Kept.step {op : Op U W C E} (h : Kept o log) (hs : o.step op = some o') : Kept o' (log.note o op) := by
  cases op with
  | add write block =>
    cases hs
    refine ⟨fun u => ?_, h.called⟩
    show Function.update log.made o.user _ u = log.settledOf u ++ _
    by_cases hu : u = o.user
    · subst hu
      rw [Function.update_self, put_waiting_self, h.exact, List.append_assoc]
    · rw [Function.update_of_ne hu, put_waiting_ne hu, h.exact]
  | settle error =>
    cases hw : o.waiting o.user with
    | nil =>
      unfold Outbox.step at hs
      rw [hw] at hs
      cases hs
    | cons entry entries =>
      rw [step_settle hw] at hs
      cases hs
      have hnote : log.note o (.settle error) = { log with settled := log.settled ++ [⟨o.user, entry, error⟩] } := by
        unfold Log.note
        rw [hw]
        rfl
      rw [hnote]
      refine ⟨fun u => ?_, ?_⟩
      · rw [settledOf_append]
        show log.made u = _ ++ (o.put entries).waiting u
        by_cases hu : o.user = u
        · subst hu
          rw [if_pos rfl, put_waiting_self, List.append_assoc, h.exact, hw]
          rfl
        · rw [if_neg hu, put_waiting_ne (Ne.symm hu), List.append_nil, h.exact]
      · show o.called ++ _ = _
        rw [h.called, List.filterMap_append]
        rfl
  | switch user =>
    cases hs
    exact ⟨h.exact, h.called⟩
  | restart user =>
    cases hs
    refine ⟨fun u => ?_, h.called⟩
    show (log.made u).take _ ++ ((log.made u).drop _).map _ = log.settledOf u ++ _
    rw [h.exact, List.take_left, List.drop_left]

end Outbox
