import Mathlib.Algebra.Group.Int.Defs
import Precedent.Json.Value

/-!
# Precedent.Proofs.Document.Grammar

**The grammar of documents.** A document is an object with a list of clusters or with a list of
search hits. Both are records, and so are the sub-opinions of a cluster: a `RecordGrammar` says
which fields a record has, in which order, what each of them may hold and how many of them it cannot
do without. The grammar is about values in canonical form, where no object has a name twice.
-/

namespace Precedent

namespace Json

/-- An object has a member. -/
def HasMember (v : Json) (name : String) (w : Json) : Prop :=
  ∃ members, v = .object members ∧ (name, w) ∈ members

/-! ### Parts of a document -/

inductive IsText : Json → Prop where
  | text (s : String) : IsText (.text s)

inductive IsNatural : Json → Prop where
  | int {n : Int} (hnonneg : 0 ≤ n) (hlt : n < 2 ^ 64) : IsNatural (.int n)

inductive IsInteger : Json → Prop where
  | int {n : Int} (hle : -2 ^ 63 ≤ n) (hlt : n < 2 ^ 63) : IsInteger (.int n)

/-- A number of any size, with a fraction or without. -/
inductive IsNumber : Json → Prop where
  | int (n : Int) : IsNumber (.int n)
  | double (x : Number.Binary) : IsNumber (.double x)
  | single (x : Number.Binary) : IsNumber (.single x)

/-- A number or a text names an opinion; any text does. -/
inductive IsId : Json → Prop where
  | natural {v : Json} (h : IsNatural v) : IsId v
  | text {v : Json} (h : IsText v) : IsId v

inductive NullOr (P : Json → Prop) : Json → Prop where
  | null : NullOr P .null
  | of {v : Json} (h : P v) : NullOr P v

inductive ListOf (P : Json → Prop) : Json → Prop where
  | list {items : List Json} (h : ∀ w ∈ items, P w) : ListOf P (.list items)

/-- How a citation is drawn: at most one opacity, under either of its two spellings, or alone. -/
inductive IsMetadata : Json → Prop where
  | object {members : List (String × Json)}
      (hone : (members.filter fun m => m.1 = "opacity" ∨ m.1 = "opacitiy").length ≤ 1)
      (h : ∀ m ∈ members, m.1 = "opacity" ∨ m.1 = "opacitiy" → NullOr IsNumber m.2) :
      IsMetadata (.object members)
  | list {items : List Json} (hone : items.length ≤ 1) (h : ∀ w ∈ items, NullOr IsNumber w) :
      IsMetadata (.list items)

/-- A list of identifiers, or an object with the metadata of each citation. Any name of a member is
an identifier. -/
inductive IsCitations : Json → Prop where
  | list {items : List Json} (h : ∀ w ∈ items, IsId w) : IsCitations (.list items)
  | object {members : List (String × Json)} (h : ∀ m ∈ members, IsMetadata m.2) :
      IsCitations (.object members)

end Json

/-! ### Records -/

/-- The fields of a record in the order of their declaration, each with what it may hold. -/
structure RecordGrammar where
  fields : List (String × (Json → Prop))
  /-- How many fields, from the first on, have to be there. -/
  required : Nat

/-- A record is an object, whose other members do not matter, or a list of its first fields. -/
inductive RecordGrammar.Fits (γ : RecordGrammar) : Json → Prop where
  | object {members : List (String × Json)}
      (hrequired : ∀ f ∈ γ.fields.take γ.required, f.1 ∈ members.map Prod.fst)
      (h : ∀ m ∈ members, ∀ f ∈ γ.fields, m.1 = f.1 → f.2 m.2) : γ.Fits (.object members)
  | list {items : List Json} (hrequired : γ.required ≤ items.length)
      (hlength : items.length ≤ γ.fields.length) (h : ∀ p ∈ γ.fields.zip items, p.1.2 p.2) :
      γ.Fits (.list items)

open Json

def subOpinionGrammar : RecordGrammar where
  fields := [("opinions_cited", NullOr IsCitations)]
  required := 0

def clusterGrammar : RecordGrammar where
  fields :=
    [("id", IsId),
      ("date_filed", IsText),
      ("case_name", NullOr IsText),
      ("case_name_short", NullOr IsText),
      ("absolute_url", NullOr IsText),
      ("citation_count", NullOr IsNatural),
      ("decision_direction", NullOr IsInteger),
      ("votes_majority", NullOr IsInteger),
      ("votes_minority", NullOr IsInteger),
      ("scdb_id", NullOr IsText),
      ("sub_opinions", ListOf subOpinionGrammar.Fits)]
  required := 2

def hitGrammar : RecordGrammar where
  fields :=
    [("id", IsId),
      ("dateFiled", IsText),
      ("cites", ListOf IsId),
      ("caseName", NullOr IsText),
      ("caseNameShort", NullOr IsText),
      ("absolute_url", NullOr IsText),
      ("citation", ListOf IsText)]
  required := 2

end Precedent
