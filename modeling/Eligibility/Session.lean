import Eligibility.Catalog

/-!
# Session — a run of operations on one store

A session performs steps one after another.  A step that fails leaves its error as its result, and
the session goes on.

* `Session.Step` — what can be asked;
* `Session.Answer` — what is answered;
* `Session.perform` — one step at a given time;
* `Session.run` — a list of steps, each with its time.
-/

namespace Eligibility
namespace Session

/-- A step of a session. -/
inductive Step where
  | create (name text : String)
  | modify (name text : String)
  | combine (names : List String)
  | evaluate (name : String) (record : Record)
  | reportAll (record : Record)
  | get (name : String)
  | list
  | delete (name : String)
  /-- Stores a rule as it is. -/
  | insert (rule : Rule)
  /-- Replaces a tree without validation. -/
  | update (name : String) (tree : Tree)
  | find (name : String)
  | findMany (names : List String)
  | findAll
  | size
  /-- Combines rules that are not stored. -/
  | combineRules (rules : List Rule)
  /-- Evaluates rules that are not stored. -/
  | reportRules (rules : List Rule) (record : Record)
  | validate (tree : Tree)
  | describe
  | reload
  /-- Reads a snapshot where there is none. -/
  | loadNothing

/-- The answer to a step. -/
inductive Answer where
  | rule (rule : Rule)
  | verdict (passed : Bool)
  | report (report : Report)
  | names (names : List String)
  | deleted
  | found (rule : Option Rule)
  | rules (rules : List Rule)
  | size (size : Nat) (isEmpty : Bool)
  | combination (combination : Combination)
  | valid
  | context (ctx : Context)
  | count (count : Nat)

open Catalog (Action answer)

/-- Performs a step at the time `now`. -/
def perform (ctx : Context) (now : Instant) : Step → Action Answer
  | .create name text => return .rule (← Catalog.create ctx now name text)
  | .modify name text => return .rule (← Catalog.modify ctx name text)
  | .combine names => return .rule (← Catalog.combine now names)
  | .evaluate name record => return .verdict (← Catalog.evaluate ctx name record)
  | .reportAll record => return .report (← Catalog.reportAll ctx record)
  | .get name => return .rule (← Catalog.find name)
  | .list => return .names (← get).names
  | .delete name => do
    Catalog.delete name
    return .deleted
  | .insert rule => return .rule (← Catalog.insert rule)
  | .update name tree => return .rule (← Catalog.update name tree)
  | .find name => return .found ((← get).get? name)
  | .findMany names => return .rules ((← get).findMany names)
  | .findAll => return .rules (← get).all
  | .size => return .size (← get).size (← get).isEmpty
  | .combineRules rules =>
    answer (((Context.combineRules rules).mapError Error.combination).map Answer.combination)
  | .reportRules rules record => return .report (ctx.reportRules record rules)
  | .validate tree =>
    answer (((ctx.validate tree).mapError Error.validation).map fun _ => Answer.valid)
  | .describe => return .context ctx
  | .reload => return .count (← Catalog.reload)
  | .loadNothing => throw (.snapshot .unreadable)

/-- The results of steps at their times, each with the store after it. -/
def run (ctx : Context) (store : Store) :
    List (Instant × Step) → List (Except Error Answer × Store)
  | [] => []
  | (now, step) :: rest =>
    let result := (perform ctx now step).run.run store
    result :: run ctx result.2 rest

end Session
end Eligibility
