/-
# Changes of catalogs

The changes that a catalog goes through, as values, so that one can speak of the catalogs that
arise from the empty one. A change that fails may be followed by others.
-/
import Tariff.Catalog.Batch

namespace Tariff

/-- A change of a catalog. -/
inductive CatalogChange where
  | load (rule : Rule)
  | loadText (text : String)
  | update (rule : Rule)
  | delete (id : String)
  | loadBatch (policy : InvalidRulePolicy) (rules : List Rule)
  | loadBatchText (policy : InvalidRulePolicy) (text : String)
  | clear

namespace Catalog

/-- The catalog after a change. -/
def after (catalog : Catalog) : CatalogChange → Catalog
  | .load rule => (catalog.load rule).2
  | .loadText text => (catalog.loadText text).2
  | .update rule => (catalog.update rule).2
  | .delete id => (catalog.delete id).2
  | .loadBatch policy rules => (catalog.loadBatch policy rules).2
  | .loadBatchText policy text => (catalog.loadBatchText policy text).2
  | .clear => catalog.clear

/-- The catalog after changes, the first of which comes first. -/
def afterAll (catalog : Catalog) (changes : List CatalogChange) : Catalog :=
  changes.foldl after catalog

/-- Whether a catalog arises from the empty one. -/
def Reachable (catalog : Catalog) : Prop :=
  ∃ changes : List CatalogChange, catalog = empty.afterAll changes

end Catalog

end Tariff
