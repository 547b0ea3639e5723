import Proctor.Session.Basic

/-!
# The catalog of questions

The catalog holds questions by id and knows which levels belong to which subject: those for
which a question was ever put in.
-/

set_option autoImplicit false

namespace Proctor

structure Catalog where
  levels : List (Int × Int)
  questions : Table Int Question
deriving DecidableEq

namespace Catalog

def empty : Catalog := ⟨[], ∅⟩

instance : EmptyCollection Catalog := ⟨empty⟩

/-- Puts a question in, replacing one with the same id. -/
def insert (c : Catalog) (q : Question) : Catalog :=
  ⟨c.levels.insert (q.scope.subject, q.scope.level), c.questions.insert q.id q⟩

def ofList (qs : List Question) : Catalog := qs.foldl insert ∅

/-- The level belongs to the subject. -/
def hasLevel (c : Catalog) (subject level : Int) : Bool := c.levels.contains (subject, level)

/-- The questions that are eligible in a scope, by id. -/
def pool (c : Catalog) (s : Scope) : List PoolEntry :=
  (c.questions.values.filter (·.eligible s)).map fun q => ⟨q.id, q.kind⟩

def get? (c : Catalog) (id : Int) : Option Question := c.questions.get? id

theorem get?_insert (c : Catalog) (q : Question) (id : Int) : (c.insert q).get? id = if id = q.id then some q else c.get? id :=
  Table.get?_insert _ _ _ _

/-- The questions with these ids, in this order; ids without a question are left out. -/
def getAll (c : Catalog) (ids : List Int) : List Question := ids.filterMap c.get?

end Catalog

end Proctor
