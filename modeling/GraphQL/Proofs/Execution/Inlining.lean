import GraphQL.Proofs.Document.Reading
import GraphQL.Proofs.Execution.Collection
import GraphQL.Proofs.Execution.Nodes
import GraphQL.Proofs.Validation.Cycles

/-!
Field collection against inlining. Where fragments are acyclic every spread and every inline
fragment that applies can be replaced by its selections. Collection follows a fragment at its first
spread only, but this loses nothing: what it leaves out was met before.
-/

namespace GraphQL

/-! ## Inlining -/

namespace Request

/-- The fields of selections on an object type, with every spread and inline fragment that is
included and applies replaced by its selections. -/
inductive Inlines (request : Request) (objectName : String) : List Selection → List Field → Prop
  | nil : Inlines request objectName [] []
  | field {node : Field} {rest : List Selection} {fields : List Field}
      (included : request.includes node.directives = true)
      (later : Inlines request objectName rest fields) :
      Inlines request objectName (.field node :: rest) (node :: fields)
  | leftOut {selection : Selection} {rest : List Selection} {fields : List Field}
      (excluded : request.includes selection.directives = false)
      (later : Inlines request objectName rest fields) :
      Inlines request objectName (selection :: rest) fields
  | spread {spread : FragmentSpread} {fragment : Fragment} {rest : List Selection}
      {inside fields : List Field} (included : request.includes spread.directives = true)
      (found : request.document.fragment? spread.name = some fragment)
      (applies : request.conditionHolds fragment.condition objectName = true)
      (within : Inlines request objectName fragment.selections inside)
      (later : Inlines request objectName rest fields) :
      Inlines request objectName (.spread spread :: rest) (inside ++ fields)
  | spreadApart {spread : FragmentSpread} {rest : List Selection} {fields : List Field}
      (included : request.includes spread.directives = true)
      (apart : ∀ fragment, request.document.fragment? spread.name = some fragment →
        request.conditionHolds fragment.condition objectName = false)
      (later : Inlines request objectName rest fields) :
      Inlines request objectName (.spread spread :: rest) fields
  | inline {fragment : InlineFragment} {rest : List Selection} {inside fields : List Field}
      (included : request.includes fragment.directives = true)
      (applies : fragment.condition.all (request.conditionHolds · objectName) = true)
      (within : Inlines request objectName fragment.selections inside)
      (later : Inlines request objectName rest fields) :
      Inlines request objectName (.inline fragment :: rest) (inside ++ fields)
  | inlineApart {fragment : InlineFragment} {rest : List Selection} {fields : List Field}
      (included : request.includes fragment.directives = true)
      (apart : fragment.condition.all (request.conditionHolds · objectName) = false)
      (later : Inlines request objectName rest fields) :
      Inlines request objectName (.inline fragment :: rest) fields

variable {request : Request} {objectName : String}

private theorem Inlines.append {left right : List Selection} {first second : List Field}
    (inlines : request.Inlines objectName left first)
    (further : request.Inlines objectName right second) :
    request.Inlines objectName (left ++ right) (first ++ second) := by
  induction inlines with
  | nil => exact further
  | field included _ induction => exact .field included induction
  | leftOut excluded _ induction => exact .leftOut excluded induction
  | spread included found applies within _ _ induction =>
      rw [List.append_assoc]
      exact .spread included found applies within induction
  | spreadApart included apart _ induction => exact .spreadApart included apart induction
  | inline included applies within _ _ induction =>
      rw [List.append_assoc]
      exact .inline included applies within induction
  | inlineApart included apart _ induction => exact .inlineApart included apart induction

section

variable {selection : Selection} {rest : List Selection} {fields : List Field}

private theorem Inlines.of_field {node : Field}
    (inlines : request.Inlines objectName (.field node :: rest) fields)
    (included : request.includes node.directives = true) :
    ∃ later, request.Inlines objectName rest later ∧ fields = node :: later := by
  cases inlines with
  | field _ later => exact ⟨_, later, rfl⟩
  | leftOut excluded _ => exact absurd included (Bool.eq_false_iff.mp excluded)

private theorem Inlines.of_leftOut (inlines : request.Inlines objectName (selection :: rest) fields)
    (excluded : request.includes selection.directives = false) :
    request.Inlines objectName rest fields := by
  have notIncluded := Bool.eq_false_iff.mp excluded
  cases inlines with
  | leftOut _ later => exact later
  | field included _ => exact absurd included notIncluded
  | spread included _ _ _ _ => exact absurd included notIncluded
  | spreadApart _ _ later => exact later
  | inline included _ _ _ => exact absurd included notIncluded
  | inlineApart _ _ later => exact later

private theorem Inlines.of_spread {spread : FragmentSpread} {fragment : Fragment}
    (inlines : request.Inlines objectName (.spread spread :: rest) fields)
    (included : request.includes spread.directives = true)
    (found : request.document.fragment? spread.name = some fragment)
    (applies : request.conditionHolds fragment.condition objectName = true) :
    ∃ inside later, request.Inlines objectName fragment.selections inside ∧
      request.Inlines objectName rest later ∧ fields = inside ++ later := by
  cases inlines with
  | leftOut excluded _ => exact absurd included (Bool.eq_false_iff.mp excluded)
  | spreadApart _ apart _ => exact absurd applies (Bool.eq_false_iff.mp (apart _ found))
  | spread _ foundAlso _ within later =>
      rw [found] at foundAlso
      cases foundAlso
      exact ⟨_, _, within, later, rfl⟩

private theorem Inlines.of_spreadApart {spread : FragmentSpread}
    (inlines : request.Inlines objectName (.spread spread :: rest) fields)
    (apart : ∀ fragment, request.document.fragment? spread.name = some fragment →
      request.conditionHolds fragment.condition objectName = false) :
    request.Inlines objectName rest fields := by
  cases inlines with
  | leftOut _ later => exact later
  | spread _ found applies _ _ => exact absurd applies (Bool.eq_false_iff.mp (apart _ found))
  | spreadApart _ _ later => exact later

private theorem Inlines.of_inline {fragment : InlineFragment}
    (inlines : request.Inlines objectName (.inline fragment :: rest) fields)
    (included : request.includes fragment.directives = true)
    (applies : fragment.condition.all (request.conditionHolds · objectName) = true) :
    ∃ inside later, request.Inlines objectName fragment.selections inside ∧
      request.Inlines objectName rest later ∧ fields = inside ++ later := by
  cases inlines with
  | leftOut excluded _ => exact absurd included (Bool.eq_false_iff.mp excluded)
  | inlineApart _ apart _ => exact absurd applies (Bool.eq_false_iff.mp apart)
  | inline _ _ within later => exact ⟨_, _, within, later, rfl⟩

private theorem Inlines.of_inlineApart {fragment : InlineFragment}
    (inlines : request.Inlines objectName (.inline fragment :: rest) fields)
    (apart : fragment.condition.all (request.conditionHolds · objectName) = false) :
    request.Inlines objectName rest fields := by
  cases inlines with
  | leftOut _ later => exact later
  | inline _ applies _ _ => exact absurd applies (Bool.eq_false_iff.mp apart)
  | inlineApart _ _ later => exact later

end

private theorem Inlines.unique {selections : List Selection} {fields other : List Field}
    (inlines : request.Inlines objectName selections fields)
    (also : request.Inlines objectName selections other) : other = fields := by
  induction inlines generalizing other with
  | nil =>
      cases also
      rfl
  | field included _ induction =>
      rcases also.of_field included with ⟨later, isLater, rfl⟩
      rw [induction isLater]
  | leftOut excluded _ induction => exact induction (also.of_leftOut excluded)
  | spread included found applies _ _ inside induction =>
      rcases also.of_spread included found applies with ⟨within, later, isWithin, isLater, rfl⟩
      rw [inside isWithin, induction isLater]
  | spreadApart _ apart _ induction => exact induction (also.of_spreadApart apart)
  | inline included applies _ _ inside induction =>
      rcases also.of_inline included applies with ⟨within, later, isWithin, isLater, rfl⟩
      rw [inside isWithin, induction isLater]
  | inlineApart _ apart _ induction => exact induction (also.of_inlineApart apart)

/-- The fragment of a name can be inlined, if there is one. -/
private def CanInline (request : Request) (objectName name : String) : Prop :=
  ∀ fragment, request.document.fragment? name = some fragment →
    ∃ fields, request.Inlines objectName fragment.selections fields

mutual

private theorem inlines_selection : (selection : Selection) →
    (∀ spread ∈ selection.spreads, request.CanInline objectName spread.name) →
    ∃ fields, request.Inlines objectName [selection] fields
  | .field node, _ => by
      cases included : request.includes node.directives with
      | false => exact ⟨[], .leftOut included .nil⟩
      | true => exact ⟨[node], .field included .nil⟩
  | .spread node, each => by
      cases included : request.includes node.directives with
      | false => exact ⟨[], .leftOut included .nil⟩
      | true =>
          by_cases applies : ∃ fragment, request.document.fragment? node.name = some fragment ∧
              request.conditionHolds fragment.condition objectName = true
          · rcases applies with ⟨fragment, found, applies⟩
            rcases each node (List.mem_singleton_self node) fragment found with ⟨inside, within⟩
            exact ⟨_, .spread included found applies within .nil⟩
          · exact ⟨[], .spreadApart included (fun fragment found =>
              Bool.eq_false_iff.mpr fun holds => applies ⟨fragment, found, holds⟩) .nil⟩
  | .inline ⟨position, condition, directives, under⟩, each => by
      cases included : request.includes directives with
      | false => exact ⟨[], .leftOut included .nil⟩
      | true =>
          cases applies : condition.all (request.conditionHolds · objectName) with
          | false => exact ⟨[], .inlineApart included applies .nil⟩
          | true =>
              rcases inlines_selections under each with ⟨inside, within⟩
              exact ⟨_, .inline included applies within .nil⟩

private theorem inlines_selections : (selections : List Selection) →
    (∀ spread ∈ spreadsOf selections, request.CanInline objectName spread.name) →
    ∃ fields, request.Inlines objectName selections fields
  | [], _ => ⟨[], .nil⟩
  | selection :: selections, each => by
      rcases inlines_selection selection fun spread member =>
        each spread (List.mem_append_left _ member) with ⟨first, here⟩
      rcases inlines_selections selections fun spread member =>
        each spread (List.mem_append_right _ member) with ⟨second, later⟩
      exact ⟨first ++ second, here.append later⟩

end

private theorem canInline_of_chain (length : Nat) :
    ∀ name, ¬request.document.ChainFrom length name →
    request.CanInline objectName name := by
  induction length with
  | zero =>
      intro name unchained fragment found
      exact absurd (by rw [Document.ChainFrom, found]; rfl) unchained
  | succ length induction =>
      intro name unchained fragment found
      refine inlines_selections fragment.selections fun spread member => ?_
      exact induction spread.name fun chained =>
        unchained ⟨spread.name, ⟨fragment, found, spread, member, rfl⟩, chained⟩

private theorem exists_inlines (acyclic : request.document.Acyclic) (objectName : String)
    (selections : List Selection) : ∃ fields, request.Inlines objectName selections fields :=
  inlines_selections selections fun spread _ =>
    canInline_of_chain _ spread.name (acyclic.not_chainFrom spread.name)

end Request

/-! ## First mentions -/

namespace Collection

/-- Keep a field node unless it was kept before. -/
def keepFirst (kept : List Field) (field : Field) : List Field :=
  if field.position ∈ kept.map Field.position then kept else kept ++ [field]

/-- The field nodes in order of first mention, each once. -/
def firstMentions (fields : List Field) : List Field := fields.foldl keepFirst []

variable {kept fields : List Field} {field : Field}

/-- Some fields are all among those that were kept. -/
private def Absorbed (kept fields : List Field) : Prop :=
  fields.map Field.position ⊆ kept.map Field.position

private theorem subset_keepFirst (kept : List Field) (field : Field) :
    Absorbed (keepFirst kept field) kept ∧ Absorbed (keepFirst kept field) [field] := by
  rw [keepFirst, Absorbed, Absorbed]
  split
  · rename_i known
    exact ⟨List.Subset.refl _, List.cons_subset.mpr ⟨known, List.nil_subset _⟩⟩
  · rw [List.map_append]
    exact ⟨List.subset_append_left _ _, List.subset_append_right _ _⟩

private theorem subset_foldl (kept fields : List Field) :
    Absorbed (fields.foldl keepFirst kept) kept ∧
      Absorbed (fields.foldl keepFirst kept) fields := by
  induction fields generalizing kept with
  | nil => exact ⟨List.Subset.refl _, List.nil_subset _⟩
  | cons field fields induction =>
      have here := subset_keepFirst kept field
      have later := induction (keepFirst kept field)
      exact ⟨List.Subset.trans here.1 later.1,
        List.cons_subset.mpr ⟨later.1 (here.2 List.mem_cons_self), later.2⟩⟩

private theorem foldl_absorbed (absorbed : Absorbed kept fields) :
    fields.foldl keepFirst kept = kept := by
  induction fields with
  | nil => rfl
  | cons field fields induction =>
      have parts := List.cons_subset.mp absorbed
      rw [List.foldl_cons, keepFirst, if_pos parts.1]
      exact induction parts.2

private theorem foldl_distinct (distinct : ((kept ++ fields).map Field.position).Nodup) :
    fields.foldl keepFirst kept = kept ++ fields := by
  induction fields generalizing kept with
  | nil => exact (List.append_nil kept).symm
  | cons field fields induction =>
      have new : field.position ∉ kept.map Field.position := by
        rw [List.map_append, List.nodup_append] at distinct
        exact fun known => distinct.2.2 _ known _ List.mem_cons_self rfl
      have split := List.append_cons kept field fields
      rw [split] at distinct ⊢
      rw [List.foldl_cons, keepFirst, if_neg new]
      exact induction distinct

end Collection

namespace Request

open Collection

variable {request : Request} {objectName : String}

/-- The fragment of a name has nothing to add to what was kept. -/
private def IsSpent (request : Request) (objectName : String) (kept : List Field) (name : String) :
    Prop :=
  ∀ fragment, request.document.fragment? name = some fragment →
    request.conditionHolds fragment.condition objectName = true →
    ∀ fields, request.Inlines objectName fragment.selections fields → Absorbed kept fields

private theorem IsSpent.mono {kept further : List Field} {name : String}
    (spent : request.IsSpent objectName kept name) (more : Absorbed further kept) :
    request.IsSpent objectName further name :=
  fun fragment found applies fields inlines =>
    List.Subset.trans (spent fragment found applies fields inlines) more

/-- The fragments that were spread are open or have nothing to add. -/
private def Accounts (request : Request) (objectName : String) (opened visited : List String)
    (kept : List Field) : Prop :=
  ∀ name ∈ visited, name ∈ opened ∨ request.IsSpent objectName kept name

/-- Open fragments lead to the spreads that are still to come. -/
private def LeadsOn (request : Request) (opened : List String) (selections : List Selection) :
    Prop :=
  ∀ name ∈ opened, ∀ spread ∈ spreadsOf selections,
    Relation.TransGen request.document.SpreadsTo name spread.name

private theorem Accounts.mono {opened visited : List String} {kept further : List Field}
    (accounts : request.Accounts objectName opened visited kept) (more : Absorbed further kept) :
    request.Accounts objectName opened visited further :=
  fun name member => (accounts name member).imp_right fun spent => spent.mono more

private theorem LeadsOn.tail {opened : List String} {selection : Selection} {rest : List Selection}
    (leads : request.LeadsOn opened (selection :: rest)) : request.LeadsOn opened rest :=
  fun name member spread inside => leads name member spread (List.mem_append_right _ inside)

private theorem LeadsOn.within {opened : List String} {fragment : InlineFragment}
    {rest : List Selection} (leads : request.LeadsOn opened (.inline fragment :: rest)) :
    request.LeadsOn opened fragment.selections := by
  intro name member spread inside
  cases fragment
  exact leads name member spread (List.mem_append_left _ inside)

private theorem LeadsOn.enter {opened : List String} {spread : FragmentSpread} {fragment : Fragment}
    {rest : List Selection} (leads : request.LeadsOn opened (.spread spread :: rest))
    (found : request.document.fragment? spread.name = some fragment) :
    request.LeadsOn (spread.name :: opened) fragment.selections := by
  intro name member inner inside
  have step : request.document.SpreadsTo spread.name inner.name :=
    ⟨fragment, found, inner, inside, rfl⟩
  rcases List.mem_cons.mp member with rfl | outer
  · exact .single step
  · exact (leads name outer spread List.mem_cons_self).tail step

private theorem Accounts.enter {opened visited : List String} {kept : List Field}
    (accounts : request.Accounts objectName opened visited kept) (name : String) :
    request.Accounts objectName (name :: opened) (visited ++ [name]) kept := by
  intro other member
  rcases List.mem_append.mp member with before | last
  · exact (accounts other before).imp_left (List.mem_cons_of_mem name)
  · rw [List.mem_singleton.mp last]
    exact .inl List.mem_cons_self

private theorem Accounts.leave {opened visited : List String} {kept : List Field} {name : String}
    (accounts : request.Accounts objectName (name :: opened) visited kept)
    (spent : request.IsSpent objectName kept name) :
    request.Accounts objectName opened visited kept := by
  intro other member
  rcases accounts other member with isOpen | isSpent
  · rcases List.mem_cons.mp isOpen with rfl | outer
    · exact .inr spent
    · exact .inl outer
  · exact .inr isSpent

private theorem isSpent_of_inlined {name : String} {fragment : Fragment} {inside kept : List Field}
    (found : request.document.fragment? name = some fragment)
    (within : request.Inlines objectName fragment.selections inside) :
    request.IsSpent objectName (inside.foldl keepFirst kept) name := by
  intro other foundOther _ fields inlines
  rw [found] at foundOther
  cases foundOther
  rw [within.unique inlines]
  exact (subset_foldl kept inside).2

private theorem isSpent_of_apart {name : String} {kept : List Field}
    (apart : ∀ fragment, request.document.fragment? name = some fragment →
      request.conditionHolds fragment.condition objectName = false) :
    request.IsSpent objectName kept name :=
  fun fragment found applies => absurd applies (Bool.eq_false_iff.mp (apart fragment found))

/-- Going through selections keeps the same fields as inlining them. An open fragment is not spread
again, since that would close a cycle. -/
private theorem Traverses.keeps (acyclic : request.document.Acyclic)
    {visited after opened : List String}
    {selections : List Selection} {fields inlined kept : List Field}
    (traverses : request.Traverses objectName visited selections fields after)
    (inlines : request.Inlines objectName selections inlined)
    (accounts : request.Accounts objectName opened visited kept)
    (leads : request.LeadsOn opened selections) :
    fields.foldl keepFirst kept = inlined.foldl keepFirst kept ∧
      request.Accounts objectName opened after (fields.foldl keepFirst kept) := by
  induction traverses generalizing opened inlined kept with
  | nil =>
      cases inlines
      exact ⟨rfl, accounts⟩
  | field included _ induction =>
      rcases inlines.of_field included with ⟨later, isLater, rfl⟩
      exact induction isLater (accounts.mono (subset_keepFirst kept _).1) leads.tail
  | leftOut excluded _ induction =>
      exact induction (inlines.of_leftOut excluded) accounts leads.tail
  | again known _ induction =>
      cases inlines with
      | leftOut _ later => exact induction later accounts leads.tail
      | spreadApart _ _ later => exact induction later accounts leads.tail
      | spread _ found applies within later =>
          rcases accounts _ known with isOpen | spent
          · exact absurd (leads _ isOpen _ List.mem_cons_self) (acyclic _)
          · rw [List.foldl_append, foldl_absorbed (spent _ found applies _ within)]
            exact induction later accounts leads.tail
  | spread included new found applies _ _ inside induction =>
      rcases inlines.of_spread included found applies with ⟨within, later, isWithin, isLater, rfl⟩
      rcases inside isWithin (accounts.enter _) (leads.enter found) with ⟨same, accountsInside⟩
      have left := accountsInside.leave (same ▸ isSpent_of_inlined found isWithin)
      rw [List.foldl_append, List.foldl_append, ← same]
      exact induction isLater left leads.tail
  | spreadApart _ _ apart _ induction =>
      exact induction (inlines.of_spreadApart apart)
        ((accounts.enter _).leave (isSpent_of_apart apart)) leads.tail
  | inline included applies _ _ inside induction =>
      rcases inlines.of_inline included applies with ⟨within, later, isWithin, isLater, rfl⟩
      rcases inside isWithin accounts leads.within with ⟨same, accountsInside⟩
      rw [List.foldl_append, List.foldl_append, ← same]
      exact induction isLater accountsInside leads.tail
  | inlineApart _ apart _ induction =>
      exact induction (inlines.of_inlineApart apart) accounts leads.tail

/-- Where nothing is cyclic, collection meets each node that inlining comes by once, in the order of
first mention. -/
private theorem Traverses.firstMentions_eq (distinct : request.document.positions.Nodup)
    (known : request.operation ∈ request.document.operations)
    (acyclic : request.document.Acyclic) {sets : List (List Selection)}
    (gathers : request.Gathers sets) {fields inlined : List Field} {after : List String}
    (traverses : request.Traverses objectName [] sets.flatten fields after)
    (inlines : request.Inlines objectName sets.flatten inlined) :
    fields = firstMentions inlined := by
  rcases gathers.outer distinct known with ⟨owners, rfl, outer⟩
  have accounts : request.Accounts objectName [] [] [] :=
    fun _ member => (List.not_mem_nil member).elim
  have leads : request.LeadsOn [] (owners.map Prod.snd).flatten :=
    fun _ member => (List.not_mem_nil member).elim
  have all : fields.foldl keepFirst [] = fields :=
    @foldl_distinct [] fields (traverses.nodes distinct outer).1
  exact all.symm.trans (traverses.keeps acyclic inlines accounts leads).1

end Request

/-- Field collection comes to an end on every document. Where fragments are acyclic it gives what
inlining gives: the field nodes in order of first mention, grouped by response name. -/
theorem Request.collection_inlines (request : Request) (objectName : String) :
    (∀ sets, ∃ fields after,
      (∀ others later, request.Traverses objectName [] sets.flatten others later ↔
        others = fields ∧ later = after) ∧
      request.collectFields objectName sets = grouped fields) ∧
    (request.document.Addressed → request.operation ∈ request.document.operations →
      request.document.Acyclic → ∀ sets, request.Gathers sets →
        ∃ inlined,
          (∀ fields, request.Inlines objectName sets.flatten fields ↔ fields = inlined) ∧
          request.collectFields objectName sets = grouped (Collection.firstMentions inlined) ∧
          ∀ group ∈ request.collectFields objectName sets, group.2 ≠ []) := by
  constructor
  · intro sets
    rcases request.collectFields_traverses objectName sets with
      ⟨fields, after, traverses, isResult⟩
    refine ⟨fields, after, fun others later => ⟨traverses.unique, ?_⟩,
      isResult.trans (Collection.group_eq_grouped fields)⟩
    rintro ⟨rfl, rfl⟩
    exact traverses
  · intro addressed known acyclic sets gathers
    rcases request.collectFields_traverses objectName sets with
      ⟨fields, after, traverses, isResult⟩
    rcases exists_inlines acyclic objectName sets.flatten with ⟨inlined, inlines⟩
    have same := traverses.firstMentions_eq addressed.distinct known acyclic gathers inlines
    refine ⟨inlined, fun other => ⟨inlines.unique, fun equal => equal ▸ inlines⟩, ?_,
      fun group => collectFields_ne_nil⟩
    rw [isResult, Collection.group_eq_grouped, same]

namespace Kennel

/-! A fragment that is spread at three places: left out at the first, and at the last inside another
fragment. -/

def name : Field := ⟨⟨5, 3⟩, none, "name", [], [], []⟩

def puppy : Field := ⟨⟨6, 3⟩, some "pet", "puppy", [], [], []⟩

def pet : Field := ⟨⟨3, 3⟩, none, "pet", [], [], []⟩

def parts : Fragment := ⟨⟨4, 1⟩, "Parts", "Query", [], [.field name, .field puppy]⟩

def whole : Fragment := ⟨⟨7, 1⟩, "Whole", "Query", [], [.spread ⟨⟨8, 3⟩, "Parts", []⟩]⟩

def inner : InlineFragment := ⟨⟨3, 18⟩, some "Query", [], [.spread ⟨⟨3, 33⟩, "Whole", []⟩]⟩

def operation : Operation :=
  ⟨⟨1, 1⟩, .query, none, [], [],
    [.spread ⟨⟨2, 3⟩, "Parts", [⟨⟨2, 12⟩, "skip", [("if", .boolean true)]⟩]⟩, .field pet,
      .spread ⟨⟨3, 9⟩, "Parts", []⟩, .inline inner]⟩

def document : Document where
  definitions := [.operation operation, .fragment parts, .fragment whole]

def request (registry : Registry) : Request where
  registry := registry
  document := document
  operation := operation
  variableValues := []
  token := ⟨0, none⟩
  depth := 4

private theorem acyclic : document.Acyclic := by
  have unspread (target : String) : ¬document.SpreadsTo "Parts" target := by
    rintro ⟨fragment, found, spread, member, _⟩
    cases found
    cases member
  have last {target : String} (spreads : document.SpreadsTo "Whole" target) : target = "Parts" := by
    rcases spreads with ⟨fragment, found, spread, member, rfl⟩
    cases found
    rw [List.mem_singleton.mp member]
  intro start cycle
  rcases Relation.TransGen.head'_iff.mp cycle with ⟨next, spreads, onward⟩
  have isFragment : start = "Parts" ∨ start = "Whole" := by
    rcases spreads with ⟨fragment, found, _⟩
    have listed := Document.fragment?_mem found
    rcases List.mem_pair.mp listed.1 with rfl | rfl
    · exact .inl listed.2.symm
    · exact .inr listed.2.symm
  rcases isFragment with rfl | rfl
  · exact unspread next spreads
  · rw [last spreads] at onward
    rcases Relation.ReflTransGen.cases_head onward with same | ⟨further, again, _⟩
    · exact absurd same (by decide)
    · exact unspread further again

private theorem inlines (registry : Registry) :
    (request registry).Inlines "Query" operation.selections
      [pet, name, puppy, name, puppy] := by
  have ofParts : (request registry).Inlines "Query" parts.selections [name, puppy] :=
    .field rfl (.field rfl .nil)
  have ofWhole : (request registry).Inlines "Query" whole.selections ([name, puppy] ++ []) :=
    .spread rfl rfl rfl ofParts .nil
  have ofInner : (request registry).Inlines "Query" inner.selections
      ([name, puppy] ++ [] ++ []) :=
    .spread rfl rfl rfl ofWhole .nil
  have atEnd : (request registry).Inlines "Query" [.inline inner]
      ([name, puppy] ++ [] ++ [] ++ []) :=
    .inline rfl rfl ofInner .nil
  exact .leftOut rfl (.field rfl (.spread rfl rfl rfl ofParts atEnd))

end Kennel

/-- The fields of the fragment are collected once, at its first spread that is not left out. -/
theorem Request.collection_inlines_of_kennel :
    Kennel.document.Addressed ∧ Kennel.operation ∈ Kennel.document.operations ∧
      Kennel.document.Acyclic ∧ ∀ registry,
        (Kennel.request registry).collectFields "Query" [Kennel.operation.selections] =
          [("pet", [Kennel.pet, Kennel.puppy]), ("name", [Kennel.name])] := by
  have addressed : Kennel.document.Addressed := .inr (by decide)
  have known : Kennel.operation ∈ Kennel.document.operations := List.mem_cons_self
  refine ⟨addressed, known, Kennel.acyclic, fun registry => ?_⟩
  rcases (collection_inlines (Kennel.request registry) "Query").2 addressed known Kennel.acyclic _
    .operation with ⟨inlined, isInlined, collected, _⟩
  have same := (isInlined _).mp (Kennel.inlines registry)
  rw [← same] at collected
  exact collected

end GraphQL
