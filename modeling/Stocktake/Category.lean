/-! The five categories of constructs, and tables that hold one entry for each of them. -/

namespace Stocktake

/-- A construct is registered under one of five categories. -/
inductive Category
  | component
  | directive
  | controller
  | service
  | factory
  deriving DecidableEq, Repr

namespace Category

/-- All categories in the order in which every listing names them. -/
def all : List Category :=
  [component, directive, controller, service, factory]

/-- The method name that registers a construct of the category. -/
def keyword : Category → String
  | component => "component"
  | directive => "directive"
  | controller => "controller"
  | service => "service"
  | factory => "factory"

/-- The name of the category's collection in a report. -/
def plural : Category → String
  | component => "components"
  | directive => "directives"
  | controller => "controllers"
  | service => "services"
  | factory => "factories"

/-- The category that a keyword names. -/
def ofKeyword? (word : String) : Option Category :=
  all.find? fun category => category.keyword == word

end Category

/-- A table with one entry for each category. -/
structure ByCategory (α : Type) where
  components : α
  directives : α
  controllers : α
  services : α
  factories : α
  deriving DecidableEq, Repr

namespace ByCategory

variable {α β : Type}

/-- The table with the same entry everywhere. -/
def replicate (entry : α) : ByCategory α :=
  ⟨entry, entry, entry, entry, entry⟩

/-- The entry of a category. -/
def get (table : ByCategory α) : Category → α
  | .component => table.components
  | .directive => table.directives
  | .controller => table.controllers
  | .service => table.services
  | .factory => table.factories

/-- Changes the entry of one category. -/
def modify (table : ByCategory α) (category : Category) (change : α → α) : ByCategory α :=
  match category with
  | .component => { table with components := change table.components }
  | .directive => { table with directives := change table.directives }
  | .controller => { table with controllers := change table.controllers }
  | .service => { table with services := change table.services }
  | .factory => { table with factories := change table.factories }

/-- The table with an entry made for each category. -/
def ofFunction (entry : Category → α) : ByCategory α :=
  ⟨entry .component, entry .directive, entry .controller, entry .service, entry .factory⟩

/-- Changes every entry. -/
def map (table : ByCategory α) (change : α → β) : ByCategory β :=
  ofFunction fun category => change (table.get category)

/-- The entries in the order of the categories. -/
def toList (table : ByCategory α) : List α :=
  Category.all.map table.get

/-- A change shows in the entry of its own category only. -/
theorem get_modify (table : ByCategory α) (category other : Category) (change : α → α) :
    (table.modify category change).get other =
      if other = category then change (table.get category) else table.get other := by
  -- Each of the twenty-five pairs of categories computes.
  cases category <;> cases other <;> rfl

/-- An entry is the one made for its category. -/
theorem get_ofFunction (entry : Category → α) (category : Category) :
    (ofFunction entry).get category = entry category := by
  -- A table has one field for each category, so each case is one field read back.
  cases category <;> rfl

/-- Changing every entry changes the entry of each category. -/
theorem get_map (table : ByCategory α) (change : α → β) (category : Category) :
    (table.map change).get category = change (table.get category) :=
  -- Mapping builds the table anew from a function of the category.
  get_ofFunction _ category

end ByCategory

end Stocktake
