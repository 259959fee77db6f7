import GraphQL.Proofs.Schema.WellFormed

/-!
Registration collects what types lead to. A type is settled when its references have been followed;
settled types lead to settled types only and never back to themselves. In a well-formed schema
registration does not fail, and how deep it may nest does not matter.
-/

namespace GraphQL

namespace Schema

variable {schema : Schema}

/-! ## What progress keeps -/

structure Keeps (before after : Progress) : Prop where
  types : before.types ⊆ after.types
  names : before.names ⊆ after.names
  active : after.active = before.active

theorem Keeps.refl (progress : Progress) : Keeps progress progress :=
  ⟨List.Subset.refl _, List.Subset.refl _, rfl⟩

theorem Keeps.trans {first second third : Progress} (earlier : Keeps first second)
    (later : Keeps second third) : Keeps first third :=
  ⟨List.Subset.trans earlier.types later.types, List.Subset.trans earlier.names later.names,
    later.active.trans earlier.active⟩

/-- A type is registered and its references have been followed. -/
def Settled (progress : Progress) (type : NamedType) : Prop :=
  type ∈ progress.types ∧ type.key ∉ progress.active

theorem Settled.mono {before after : Progress} {type : NamedType} (settled : Settled before type)
    (keeps : Keeps before after) : Settled after type :=
  ⟨keeps.types settled.1, keeps.active ▸ settled.2⟩

/-- A reference has been followed: its name is noted, or its instance is settled. -/
structure Covers (schema : Schema) (progress : Progress) (reference : TypeRef) : Prop where
  name : ∀ name, reference.innermost = .named name → name ∈ Named.names progress.names
  target : ∀ target, reference.target? = some target →
    ∃ type, schema.instance? target = some type ∧ Settled progress type

private theorem Covers.of_name {progress : Progress} {reference : TypeRef} {name : String}
    (isName : reference.innermost = .named name) (noted : name ∈ Named.names progress.names) :
    schema.Covers progress reference := by
  refine ⟨fun other isOther => ?_, fun target isTarget => ?_⟩
  · cases isName.symm.trans isOther
    exact noted
  · cases (TypeRef.target?_of_named isName).symm.trans isTarget

private theorem Covers.of_target {progress : Progress} {reference : TypeRef} {target : Instance}
    {type : NamedType} (isTarget : reference.target? = some target)
    (found : schema.instance? target = some type) (settled : Settled progress type) :
    schema.Covers progress reference := by
  refine ⟨fun name isName => ?_, fun other isOther => ?_⟩
  · cases (TypeRef.target?_of_named isName).symm.trans isTarget
  · cases isTarget.symm.trans isOther
    exact ⟨type, found, settled⟩

private theorem Covers.mono {before after : Progress} {reference : TypeRef}
    (covers : schema.Covers before reference) (names : before.names ⊆ after.names)
    (settled : ∀ type, Settled before type → Settled after type) :
    schema.Covers after reference := by
  refine ⟨fun name isName => List.map_subset _ names (covers.name name isName), ?_⟩
  intro target isTarget
  rcases covers.target target isTarget with ⟨type, found, isSettled⟩
  exact ⟨type, found, settled type isSettled⟩

theorem Covers.keep {before after : Progress} {reference : TypeRef}
    (covers : schema.Covers before reference) (keeps : Keeps before after) :
    schema.Covers after reference :=
  covers.mono keeps.names fun _ settled => settled.mono keeps

/-- What is registered and noted on the way belongs to the schema, and what is settled leads to
settled types and never back to itself. -/
structure Orderly (schema : Schema) (progress : Progress) : Prop where
  members : ∀ type ∈ progress.types, schema.Member type
  distinct : (Named.names progress.types).Nodup
  active : ∀ key ∈ progress.active, ∃ type ∈ progress.types, type.key = key
  noted : ∀ name ∈ Named.names progress.names,
    ∃ reference, schema.Makes reference ∧ reference.innermost = .named name
  closed : ∀ type, Settled progress type →
    ∀ entry ∈ type.references, schema.Covers progress entry.1
  acyclic : ∀ type, Settled progress type → ¬Relation.TransGen schema.LeadsTo type type

theorem orderly_start : schema.Orderly {} := by
  refine ⟨?_, List.nodup_nil, ?_, ?_, ?_, ?_⟩
  · intro type listed
    cases listed
  · intro key listed
    cases listed
  · intro name listed
    cases listed
  · intro type settled
    cases settled.1
  · intro type settled
    cases settled.1

namespace Orderly

variable {progress : Progress}

/-- Settled types lead to settled types. -/
theorem settled_of_leadsTo (orderly : schema.Orderly progress) {type next : NamedType}
    (settled : Settled progress type) (leads : schema.LeadsTo type next) :
    Settled progress next := by
  rcases leads with ⟨target, listed, found⟩
  rcases NamedType.mem_targets.mp listed with ⟨entry, made, isTarget⟩
  rcases (orderly.closed type settled entry made).target target isTarget with
    ⟨other, foundOther, isSettled⟩
  rw [found] at foundOther
  cases foundOther
  exact isSettled

private theorem settled_of_reaches (orderly : schema.Orderly progress) {type next : NamedType}
    (settled : Settled progress type) (reaches : Relation.ReflTransGen schema.LeadsTo type next) :
    Settled progress next := by
  induction reaches with
  | refl => exact settled
  | tail _ leads induction => exact orderly.settled_of_leadsTo induction leads

/-- Noting the name of a reference. -/
theorem note (orderly : schema.Orderly progress) {reference : TypeRef} {name place : String}
    (made : schema.Makes reference) (isName : reference.innermost = .named name) :
    schema.Orderly { progress with names := progress.names ++ [(name, place)] } := by
  refine ⟨orderly.members, orderly.distinct, orderly.active, ?_, ?_, orderly.acyclic⟩
  · intro other listed
    rw [Named.names, List.map_append] at listed
    rcases List.mem_append.mp listed with before | added
    · exact orderly.noted other before
    · exact ⟨reference, made, (List.mem_singleton.mp added) ▸ isName⟩
  · exact fun type settled entry listed =>
      (orderly.closed type settled entry listed).mono (List.subset_append_left _ _) fun _ => id

/-- An instance with a new name becomes the innermost one whose references are followed. -/
private theorem enter (pooled : schema.Pooled) (orderly : schema.Orderly progress)
    {target : Instance}
    {type : NamedType} (found : schema.instance? target = some type) (member : schema.Member type)
    (unknown : Named.find? progress.types target.name = none) :
    schema.Orderly (progress.enter type) ∧ type.key ∉ progress.active := by
  have isName : type.name = target.name := congrArg Instance.name (instance?_eq found)
  have apart : ∀ other ∈ progress.types, other.key ≠ type.key := by
    intro other listed same
    have equal := pooled.eq_of_key (orderly.members other listed).means member.means same
    exact List.find?_eq_none.mp unknown other listed (beq_iff_eq.mpr (equal ▸ isName))
  have settled : ∀ other, Settled progress other → Settled (progress.enter type) other := by
    intro other isSettled
    refine ⟨List.mem_append_left _ isSettled.1, fun listed => ?_⟩
    rcases List.mem_cons.mp listed with same | before
    · exact apart other isSettled.1 same
    · exact isSettled.2 before
  have before : ∀ other, Settled (progress.enter type) other → Settled progress other := by
    intro other isSettled
    rcases List.mem_append.mp isSettled.1 with listed | added
    · exact ⟨listed, List.not_mem_of_not_mem_cons isSettled.2⟩
    · exact absurd (congrArg NamedType.key (List.mem_singleton.mp added))
        (List.ne_of_not_mem_cons isSettled.2)
  refine ⟨⟨?_, ?_, ?_, orderly.noted, ?_, ?_⟩, ?_⟩
  · intro other listed
    rcases List.mem_append.mp listed with listed | added
    · exact orderly.members other listed
    · exact List.mem_singleton.mp added ▸ member
  · exact (Grows.append progress found unknown (type.key :: progress.active)).distinct
      orderly.distinct
  · intro key listed
    rcases List.mem_cons.mp listed with same | listed
    · exact ⟨type, List.mem_append_right _ List.mem_cons_self, same.symm⟩
    · rcases orderly.active key listed with ⟨other, known, isKey⟩
      exact ⟨other, List.mem_append_left _ known, isKey⟩
  · exact fun other isSettled entry made =>
      (orderly.closed other (before other isSettled) entry made).mono (List.Subset.refl _) settled
  · exact fun other isSettled => orderly.acyclic other (before other isSettled)
  · intro isActive
    rcases orderly.active _ isActive with ⟨other, listed, same⟩
    exact apart other listed same

/-- The innermost instance is settled once its references have been followed. It does not lead back
to itself, since what it leads to was settled while it was not. -/
private theorem leave (pooled : schema.Pooled) (orderly : schema.Orderly progress)
    {active : List TypeKey} {type : NamedType} (isActive : progress.active = type.key :: active)
    (fresh : type.key ∉ active) (listed : type ∈ progress.types)
    (covered : ∀ entry ∈ type.references, schema.Covers progress entry.1) :
    schema.Orderly { progress with active := active } ∧
      Settled { progress with active := active } type := by
  have settled : ∀ other, Settled progress other →
      Settled { progress with active := active } other := by
    intro other isSettled
    have apart := isActive ▸ isSettled.2
    exact ⟨isSettled.1, List.not_mem_of_not_mem_cons apart⟩
  have cases : ∀ other, Settled { progress with active := active } other →
      other = type ∨ Settled progress other := by
    intro other isSettled
    by_cases same : other.key = type.key
    · exact .inl (pooled.eq_of_key (orderly.members other isSettled.1).means
        (orderly.members type listed).means same)
    · refine .inr ⟨isSettled.1, ?_⟩
      rw [isActive]
      exact List.not_mem_cons_of_ne_of_not_mem same isSettled.2
  refine ⟨⟨orderly.members, orderly.distinct, ?_, orderly.noted, ?_, ?_⟩, listed, fresh⟩
  · intro key isKey
    exact orderly.active key (isActive ▸ List.mem_cons_of_mem _ isKey)
  · intro other isSettled entry made
    rcases cases other isSettled with equal | before
    · exact (covered entry (equal ▸ made)).mono (List.Subset.refl _) settled
    · exact (orderly.closed other before entry made).mono (List.Subset.refl _) settled
  · intro other isSettled cycle
    rcases cases other isSettled with equal | before
    · subst equal
      rcases Relation.TransGen.head'_iff.mp cycle with ⟨next, leads, back⟩
      rcases leads with ⟨target, isTarget, found⟩
      rcases NamedType.mem_targets.mp isTarget with ⟨entry, made, means⟩
      rcases (covered entry made).target target means with ⟨reached, foundReached, isReached⟩
      rw [found] at foundReached
      cases foundReached
      have again := orderly.settled_of_reaches isReached back
      exact again.2 (isActive ▸ List.mem_cons_self)
    · exact orderly.acyclic other before cycle

end Orderly

/-! ## Registration -/

/-- What registration needs to know of visits nested one level less deep. -/
theorem visitAt_orderly {depth : Nat}
    (each : ∀ before after target place, schema.Orderly before →
      (∀ type, schema.instance? target = some type → schema.Member type) →
        schema.register depth before target place = .ok after →
          schema.Orderly after ∧ Keeps before after ∧
            ∃ type, schema.instance? target = some type ∧ Settled after type)
    {before after : Progress} {entry : TypeRef × String} (orderly : schema.Orderly before)
    (made : schema.Makes entry.1)
    (members : ∀ target, entry.1.target? = some target →
      ∀ type, schema.instance? target = some type → schema.Member type)
    (visited : schema.visitAt depth before entry = .ok after) :
    schema.Orderly after ∧ Keeps before after ∧ schema.Covers after entry.1 := by
  rcases visitAt_cases visited with ⟨name, isName, isAfter⟩ | ⟨target, isTarget, registered⟩
  · subst isAfter
    exact ⟨orderly.note made isName, ⟨List.Subset.refl _, List.subset_append_left _ _, rfl⟩,
      .of_name isName (mem_names_note _ _ _)⟩
  · rcases each _ _ _ _ orderly (members target isTarget) registered with
      ⟨isOrderly, keeps, type, found, settled⟩
    exact ⟨isOrderly, keeps, .of_target isTarget found settled⟩

theorem register_orderly (pooled : schema.Pooled) {depth : Nat} {before after : Progress}
    {target : Instance} {place : String} (orderly : schema.Orderly before)
    (members : ∀ type, schema.instance? target = some type → schema.Member type)
    (registered : schema.register depth before target place = .ok after) :
    schema.Orderly after ∧ Keeps before after ∧
      ∃ type, schema.instance? target = some type ∧ Settled after type := by
  induction depth generalizing before after target place with
  | zero => cases registered
  | succ depth induction =>
      rcases register_cases registered with
        ⟨existing, known, sameKey, notActive, isAfter⟩ |
          ⟨type, finished, unknown, found, folded, isAfter⟩
      · subst isAfter
        have parts := Named.find?_mem known
        have isTarget : existing.toInstance = target := by
          cases target
          exact congrArg₂ Instance.mk sameKey parts.2
        have means := (orderly.members existing parts.1).means
        rw [Means, isTarget] at means
        exact ⟨orderly, .refl _, existing, means, parts.1, sameKey ▸ notActive⟩
      · subst isAfter
        have member := members type found
        have entered := orderly.enter pooled found member unknown
        rcases foldlM_done schema.Orderly Keeps
            (fun progress (entry : TypeRef × String) => schema.Covers progress entry.1)
            .refl .trans (fun _ _ _ keeps covers => covers.keep keeps)
            (fun entry made earlier later isOrderly visited =>
              visitAt_orderly (fun _ _ _ _ => induction) isOrderly (.type member made)
                (fun target isTarget next isNext => .next member
                  ⟨target, NamedType.mem_targets.mpr ⟨entry, made, isTarget⟩, isNext⟩)
                visited)
            entered.1 folded with ⟨isOrderly, keeps, covered⟩
        have listed : type ∈ finished.types :=
          keeps.types (List.mem_append_right _ List.mem_cons_self)
        have ended := isOrderly.leave pooled keeps.active entered.2 listed covered
        exact ⟨ended.1,
          ⟨List.Subset.trans (List.subset_append_left _ _) keeps.types, keeps.names, rfl⟩,
          type, found, ended.2⟩

/-! ## How deep registration nests -/

/-- The number of instances whose names are not yet registered. -/
def remaining (schema : Schema) (progress : Progress) : Nat :=
  (schema.instances.filter fun type => !Named.contains progress.types type.name).length

theorem remaining_le_instances (progress : Progress) :
    schema.remaining progress ≤ schema.instances.length :=
  List.length_filter_le _ _

private theorem contains_of_subset {before after : List NamedType} {name : String}
    (subset : before ⊆ after) (known : Named.contains before name = true) :
    Named.contains after name = true := by
  rcases List.any_eq_true.mp known with ⟨type, listed, same⟩
  exact List.any_eq_true.mpr ⟨type, subset listed, same⟩

private theorem remaining_sublist (schema : Schema) {before after : Progress}
    (subset : before.types ⊆ after.types) :
    (schema.instances.filter fun type => !Named.contains after.types type.name).Sublist
      (schema.instances.filter fun type => !Named.contains before.types type.name) := by
  apply List.monotone_filter_right
  intro type unknown
  cases known : Named.contains before.types type.name with
  | false => rfl
  | true => rw [contains_of_subset subset known] at unknown; exact unknown

private theorem remaining_le {before after : Progress} (subset : before.types ⊆ after.types) :
    schema.remaining after ≤ schema.remaining before :=
  (remaining_sublist schema subset).length_le

private theorem remaining_enter {progress : Progress} {target : Instance} {type : NamedType}
    (unknown : Named.find? progress.types target.name = none)
    (found : schema.instance? target = some type) :
    schema.remaining (progress.enter type) < schema.remaining progress := by
  have isName : type.name = target.name := congrArg Instance.name (instance?_eq found)
  have subset : progress.types ⊆ (progress.enter type).types := List.subset_append_left _ _
  refine Nat.lt_of_le_of_ne (remaining_le subset) fun same => ?_
  have equal := (remaining_sublist schema subset).eq_of_length same
  have remains : type ∈
      schema.instances.filter fun type => !Named.contains progress.types type.name := by
    refine List.mem_filter.mpr ⟨mem_instances found, ?_⟩
    rw [isName, Bool.not_eq_true', Named.contains, List.any_eq_false]
    exact List.find?_eq_none.mp unknown
  rw [← equal] at remains
  have absent := (List.mem_filter.mp remains).2
  rw [Bool.not_eq_true', Named.contains, List.any_eq_false] at absent
  exact absent type (List.mem_append_right _ List.mem_cons_self) (beq_self_eq_true _)

/-- Following references one after another, however deeply registrations nest, with what comes of
it. -/
inductive Follows (schema : Schema) :
    Progress → List (TypeRef × String) → Except SchemaError Progress → Prop
  | done (progress : Progress) : Follows schema progress [] (.ok progress)
  | name {progress : Progress} {entry : TypeRef × String} {rest : List (TypeRef × String)}
      {name : String} {result : Except SchemaError Progress}
      (isName : entry.1.innermost = .named name)
      (later : Follows schema { progress with names := progress.names ++ [(name, entry.2)] } rest
        result) : Follows schema progress (entry :: rest) result
  | registered {progress : Progress} {entry : TypeRef × String} {rest : List (TypeRef × String)}
      {target : Instance} {existing : NamedType} {result : Except SchemaError Progress}
      (isTarget : entry.1.target? = some target)
      (known : Named.find? progress.types target.name = some existing)
      (same : existing.key = target.key) (inactive : target.key ∉ progress.active)
      (later : Follows schema progress rest result) :
      Follows schema progress (entry :: rest) result
  | duplicate {progress : Progress} {entry : TypeRef × String} {rest : List (TypeRef × String)}
      {target : Instance} {existing : NamedType} (isTarget : entry.1.target? = some target)
      (known : Named.find? progress.types target.name = some existing)
      (different : existing.key ≠ target.key) :
      Follows schema progress (entry :: rest) (.error (.duplicateTypeName target.name))
  | cyclic {progress : Progress} {entry : TypeRef × String} {rest : List (TypeRef × String)}
      {target : Instance} {existing : NamedType} (isTarget : entry.1.target? = some target)
      (known : Named.find? progress.types target.name = some existing)
      (same : existing.key = target.key) (isActive : target.key ∈ progress.active) :
      Follows schema progress (entry :: rest) (.error (.cyclicTypeReference target.name))
  | missing {progress : Progress} {entry : TypeRef × String} {rest : List (TypeRef × String)}
      {target : Instance} (isTarget : entry.1.target? = some target)
      (unknown : Named.find? progress.types target.name = none)
      (noInstance : schema.instance? target = none) :
      Follows schema progress (entry :: rest) (.error (.unknownType target.name entry.2))
  | fails {progress : Progress} {entry : TypeRef × String} {rest : List (TypeRef × String)}
      {target : Instance} {type : NamedType} {error : SchemaError}
      (isTarget : entry.1.target? = some target)
      (unknown : Named.find? progress.types target.name = none)
      (found : schema.instance? target = some type)
      (inner : Follows schema (progress.enter type) type.references (.error error)) :
      Follows schema progress (entry :: rest) (.error error)
  | enters {progress finished : Progress} {entry : TypeRef × String}
      {rest : List (TypeRef × String)} {target : Instance} {type : NamedType}
      {result : Except SchemaError Progress} (isTarget : entry.1.target? = some target)
      (unknown : Named.find? progress.types target.name = none)
      (found : schema.instance? target = some type)
      (inner : Follows schema (progress.enter type) type.references (.ok finished))
      (later : Follows schema { finished with active := progress.active } rest result) :
      Follows schema progress (entry :: rest) result

/-- Following references nested no deeper than there are instances left is following them. -/
theorem follows_visitAt {depth : Nat} {progress : Progress} {entries : List (TypeRef × String)}
    (enough : schema.remaining progress < depth) :
    schema.Follows progress entries (entries.foldlM (schema.visitAt depth) progress) := by
  induction depth generalizing progress entries with
  | zero => cases enough
  | succ depth deeper =>
      induction entries generalizing progress with
      | nil => exact .done progress
      | cons entry rest later =>
          have after : ∀ {next}, schema.visitAt (depth + 1) progress entry = .ok next →
              schema.Follows next rest (rest.foldlM (schema.visitAt (depth + 1)) next) :=
            fun visited => later (Nat.lt_of_le_of_lt
              (remaining_le
                (visitAt_grows (fun registered => (register_spec registered).1)
                  visited).appends.subset) enough)
          rw [List.foldlM_cons]
          rcases entry.1.named_or_target with ⟨name, isName⟩ | ⟨target, isTarget⟩
          · rw [visitAt_named isName]
            exact .name isName (after (visitAt_named isName))
          · rw [visitAt_target isTarget] at after ⊢
            cases known : Named.find? progress.types target.name with
            | some existing =>
                rw [register, known] at after ⊢
                by_cases different : existing.key ≠ target.key
                · simp only [if_pos different]
                  exact .duplicate isTarget known different
                · have same := Decidable.not_not.mp different
                  by_cases isActive : target.key ∈ progress.active
                  · simp only [if_neg different, List.contains_iff_mem.mpr isActive]
                    exact .cyclic isTarget known same isActive
                  · simp only [if_neg different, List.contains_iff_mem, isActive] at after ⊢
                    exact .registered isTarget known same isActive (after rfl)
            | none =>
                cases found : schema.instance? target with
                | none =>
                    rw [register, known, found]
                    exact .missing isTarget known found
                | some type =>
                    have less := remaining_enter known found
                    have inner : schema.Follows (progress.enter type) type.references
                        (type.references.foldlM (schema.visitAt depth) (progress.enter type)) :=
                      deeper (by omega)
                    rw [register_fresh known found] at after ⊢
                    cases folded : type.references.foldlM (schema.visitAt depth)
                      (progress.enter type) with
                    | error error => exact .fails isTarget known found (folded ▸ inner)
                    | ok finished =>
                        rw [folded] at after
                        exact .enters isTarget known found (folded ▸ inner) (after rfl)

/-! ## Registration in well-formed schemas -/

/-- What the innermost instance needs for its references to be followed: they nest less deeply, and
the instances above it lead to whatever it leads to. -/
structure Ready (schema : Schema) (depth : Nat) (type : NamedType) (progress : Progress) :
    Prop where
  orderly : schema.Orderly progress
  enough : schema.remaining progress < depth
  leads : ∀ other, schema.Member other → other.key ∈ progress.active →
    ∀ next, schema.LeadsTo type next → Relation.TransGen schema.LeadsTo other next

private theorem visitAt_ready (pooled : schema.Pooled) {depth : Nat} {before : Progress}
    {type : NamedType} {entry : TypeRef × String} (member : schema.Member type)
    (made : entry ∈ type.references) (ready : schema.Ready depth type before)
    (registers : ∀ target next, entry.1.target? = some target →
      schema.instance? target = some next →
        ∃ after, schema.register depth before target entry.2 = .ok after) :
    ∃ after, schema.visitAt depth before entry = .ok after ∧ schema.Ready depth type after := by
  have leads : ∀ {target}, entry.1.target? = some target → ∀ next,
      schema.instance? target = some next → schema.LeadsTo type next := by
    intro target isTarget next found
    exact ⟨target, NamedType.mem_targets.mpr ⟨entry, made, isTarget⟩, found⟩
  have visits : ∃ after, schema.visitAt depth before entry = .ok after := by
    rcases entry.1.named_or_target with ⟨name, isName⟩ | ⟨target, isTarget⟩
    · exact ⟨_, visitAt_named isName⟩
    · rcases Option.isSome_iff_exists.mp (pooled.targets type (mem_instances member.means) target
        (NamedType.mem_targets.mpr ⟨entry, made, isTarget⟩)) with ⟨next, found⟩
      rw [visitAt_target isTarget]
      exact registers target next isTarget found
  rcases visits with ⟨after, visited⟩
  rcases visitAt_orderly (fun _ _ _ _ => register_orderly pooled) ready.orderly
    (.type member made) (fun target isTarget next found => .next member (leads isTarget next found))
    visited with ⟨orderly, keeps, _⟩
  refine ⟨after, visited, orderly, ?_, keeps.active ▸ ready.leads⟩
  exact Nat.lt_of_le_of_lt (remaining_le keeps.types) ready.enough

/-- Registration succeeds where names tell types apart, no type leads back to itself, and the
instances whose references are being followed lead to what is registered. -/
theorem register_ok (pooled : schema.Pooled) (wellFormed : schema.WellFormed) {depth : Nat}
    {before : Progress} {target : Instance} {place : String} {type : NamedType}
    (enough : schema.remaining before < depth) (orderly : schema.Orderly before)
    (found : schema.instance? target = some type) (member : schema.Member type)
    (chain : ∀ other, schema.Member other → other.key ∈ before.active →
      Relation.TransGen schema.LeadsTo other type) :
    ∃ after, schema.register depth before target place = .ok after := by
  induction depth generalizing before target place type with
  | zero => cases enough
  | succ depth induction =>
      have isKey : type.key = target.key := congrArg Instance.key (instance?_eq found)
      have isName : type.name = target.name := congrArg Instance.name (instance?_eq found)
      cases known : Named.find? before.types target.name with
      | some existing =>
          have parts := Named.find?_mem known
          have equal := wellFormed.apart existing type (orderly.members existing parts.1) member
            (parts.2.trans isName.symm)
          have notActive : target.key ∉ before.active := fun isActive =>
            wellFormed.acyclic type member (chain type member (isKey ▸ isActive))
          refine ⟨before, ?_⟩
          rw [register, known]
          simp [equal, isKey, notActive]
      | none =>
          have less := remaining_enter known found
          have ready : schema.Ready depth type (before.enter type) := by
            refine ⟨(orderly.enter pooled found member known).1, by omega, ?_⟩
            intro other isMember isActive next leads
            rcases List.mem_cons.mp isActive with same | isActive
            · rw [pooled.eq_of_key isMember.means member.means same]
              exact .single leads
            · exact (chain other isMember isActive).tail leads
          rcases foldlM_ok (schema.Ready depth type)
            (fun entry made state isReady => visitAt_ready pooled member made isReady
              fun next other isNext foundOther =>
                have leads : schema.LeadsTo type other :=
                  ⟨next, NamedType.mem_targets.mpr ⟨entry, made, isNext⟩, foundOther⟩
                induction isReady.enough isReady.orderly foundOther (.next member leads)
                  fun active isMember isActive =>
                    isReady.leads active isMember isActive other leads)
            ready with ⟨finished, folded, _⟩
          rw [register_fresh known found, folded]
          exact ⟨_, rfl⟩

end Schema

end GraphQL
