import GraphQL.Execution.Resolver
import GraphQL.Proofs.Named

/-!
Errors and their JSON form. What the engine and the applications build is read back as it was, apart
from its kind, unless an extension is named like the code: both stand under one key, where only one
of them can be read.
-/

namespace GraphQL

/-! ## Dictionaries that are put together -/

namespace Named

variable {β : Type} {entries members base : List (String × β)} {key name : String} {value : β}

private theorem value?_toList {α : Type} (optional : Option α) (key : String) (read : α → β)
    (name : String) :
    value? (optional.map fun part => (key, read part)).toList name =
      if key = name then optional.map read else none := by
  cases optional with
  | none => simp [value?, find?]
  | some part => rw [Option.map_some, Option.toList_some, value?_cons]; rfl

private theorem value?_foldl_put (distinct : (names members).Nodup) :
    value? (members.foldl put base) name = (value? members name).or (value? base name) := by
  induction members generalizing base with
  | nil => rfl
  | cons head tail induction =>
      have apart := List.nodup_cons.mp distinct
      rw [List.foldl_cons, induction apart.2, value?_put, value?_cons]
      by_cases same : head.1 = name
      · have later : value? tail name = none := value?_eq_none.mpr (same ▸ apart.1)
        rw [if_pos same, if_pos same, later]
        rfl
      · rw [if_neg same, if_neg same]

private theorem filter_put (base : List (String × β)) (name : String) (entry : String × β) :
    (put base entry).filter (fun other => other.1 != name) =
      if entry.1 = name then base.filter fun other => other.1 != name
      else put (base.filter fun other => other.1 != name) entry := by
  induction base with
  | nil => by_cases same : entry.1 = name <;> simp [put, same]
  | cons head tail induction =>
      by_cases replaced : head.1 = entry.1
      · by_cases same : entry.1 = name <;> simp [put, nameOf, replaced, same]
      · by_cases dropped : head.1 = name
        · have kept : entry.1 ≠ name := fun same => replaced (dropped.trans same.symm)
          simp_all [put, nameOf]
        · by_cases same : entry.1 = name <;> simp_all [put, nameOf]

private theorem foldl_put_eq_append (distinct : (names (base ++ members)).Nodup) :
    members.foldl put base = base ++ members := by
  induction members generalizing base with
  | nil => exact (List.append_nil base).symm
  | cons head tail induction =>
      have fresh : nameOf head ∉ names base := by
        rw [names, List.map_append] at distinct
        exact fun known => (List.disjoint_of_nodup_append distinct) known List.mem_cons_self
      rw [List.foldl_cons, put_eq_append fresh, induction (by simpa using distinct)]
      simp

private theorem ofList_of_distinct (distinct : (names entries).Nodup) : ofList entries = entries :=
  foldl_put_eq_append distinct

private theorem names_ofList_nodup (entries : List (String × β)) :
    (names (ofList entries)).Nodup := by
  rw [ofList]
  exact List.foldlRecOn (motive := fun known => (names known).Nodup) entries put List.nodup_nil
    fun _ distinct _ _ => names_put_nodup distinct

private theorem mem_ofList {entry : String × β} (listed : entry ∈ ofList entries) :
    entry ∈ entries := by
  have kept : ∀ known ∈ ofList entries, known ∈ entries :=
    List.foldlRecOn (motive := fun collected => ∀ known ∈ collected, known ∈ entries) entries put
      (List.forall_mem_nil _) fun _ earlier added isAdded known isKnown =>
        (mem_put isKnown).elim (earlier known) fun same => same ▸ isAdded
  exact kept entry listed

private theorem filter_foldl_put (base members : List (String × β)) (name : String) :
    (members.foldl put base).filter (fun entry => entry.1 != name) =
      (members.filter fun entry => entry.1 != name).foldl put
        (base.filter fun entry => entry.1 != name) := by
  induction members generalizing base with
  | nil => rfl
  | cons head tail induction =>
      rw [List.foldl_cons, induction, filter_put]
      by_cases same : head.1 = name
      · rw [if_pos same, List.filter_cons_of_neg (by simpa using same)]
      · rw [if_neg same, List.filter_cons_of_pos (by simpa using same), List.foldl_cons]

end Named

/-! ## Keys -/

/-- No object in a JSON value repeats a key. -/
inductive Json.Unrepeated : Json → Prop
  | null : Unrepeated .null
  | bool (value : Bool) : Unrepeated (.bool value)
  | number (value : Number) : Unrepeated (.number value)
  | string (value : String) : Unrepeated (.string value)
  | array {items : List Json} (each : ∀ item ∈ items, Unrepeated item) : Unrepeated (.array items)
  | object {fields : List (String × Json)} (distinct : (Named.names fields).Nodup)
      (each : ∀ field ∈ fields, Unrepeated field.2) : Unrepeated (.object fields)

/-- A line and a column of at most 64 bits. -/
def Position.Fits (position : Position) : Prop :=
  fitsCount position.line = true ∧ fitsCount position.column = true

/-- The indices of a path have at most 64 bits. -/
def Path.Fits (path : Path) : Prop := ∀ index, .index index ∈ path → fitsCount index = true

namespace ResponseError

variable {error : ResponseError}

/-! ## Errors that are built -/

/-- An error that the engine or an application can build. -/
inductive Built : ResponseError → Prop
  | new (message : String) (kind : ErrorKind) : Built { message := message, kind := kind }
  | resolver {failure : ResolverError} (values : ∀ entry ∈ failure.extensions, entry.2.Unrepeated) :
      Built failure.toResponse
  | code {error : ResponseError} (built : Built error) (code : String) : Built (error.withCode code)
  | extension {error : ResponseError} (built : Built error) (key : String) {value : Json}
      (unrepeated : value.Unrepeated) : Built (error.withExtension key value)
  | locations {error : ResponseError} (built : Built error) {positions : List Position}
      (fit : ∀ position ∈ positions, position.Fits) : Built (error.withLocations positions)
  | path {error : ResponseError} (built : Built error) {path : Path} (fit : path.Fits) :
      Built (error.withPath path)

/-- What holds of all errors that are built: their extensions are a dictionary, and their numbers
are counts. -/
structure Sound (error : ResponseError) : Prop where
  distinct : (Named.names error.extensions).Nodup
  values : ∀ entry ∈ error.extensions, entry.2.Unrepeated
  located : ∀ positions ∈ error.locations, ∀ position ∈ positions, position.Fits
  placed : ∀ path ∈ error.path, path.Fits

private theorem Built.sound (built : Built error) : error.Sound := by
  induction built with
  | new message kind => exact ⟨List.nodup_nil, nofun, nofun, nofun⟩
  | resolver values =>
      exact ⟨Named.names_ofList_nodup _, fun entry listed => values entry (Named.mem_ofList listed),
        nofun, nofun⟩
  | code _ code induction => exact ⟨induction.distinct, induction.values, induction.located,
      induction.placed⟩
  | extension _ key unrepeated induction =>
      refine ⟨Named.names_put_nodup induction.distinct, fun entry listed => ?_, induction.located,
        induction.placed⟩
      rcases Named.mem_put listed with known | added
      · exact induction.values entry known
      · rwa [added]
  | locations _ fit induction =>
      refine ⟨induction.distinct, induction.values, fun positions isLocated => ?_,
        induction.placed⟩
      rw [withLocations, Option.mem_def] at isLocated
      split at isLocated
      · cases isLocated
      · cases isLocated
        exact fit
  | path _ fit induction =>
      exact ⟨induction.distinct, induction.values, induction.located, by
        rintro _ ⟨⟩
        exact fit⟩

/-! ## Reading parts -/

private theorem count?_int {count : Nat} (fits : fitsCount count = true) :
    count? (.int count) = some count := by
  simp [count?, Json.int, countOf?, fits]

private theorem location?_locationJson {position : Position} (fits : position.Fits) :
    location? (locationJson position) = some position := by
  have line : Named.value? [("line", Json.int position.line), ("column", .int position.column)]
      "line" = some (.int position.line) := rfl
  have column : Named.value? [("line", Json.int position.line), ("column", .int position.column)]
      "column" = some (.int position.column) := rfl
  simp only [locationJson, location?, line, column, Option.bind_some, count?_int fits.1,
    count?_int fits.2, Option.pure_def]
  rfl

private theorem pathSegment?_toJson {segment : PathSegment}
    (fits : ∀ index, segment = .index index → fitsCount index = true) :
    pathSegment? segment.toJson = some segment := by
  cases segment with
  | key name => rfl
  | index position =>
      change (count? (.int position)).map PathSegment.index = some (.index position)
      rw [count?_int (fits position rfl)]
      rfl

private theorem optionalList?_map {α : Type} {item? : Json → Option α} {write : α → Json}
    {items : List α} (reads : ∀ item ∈ items, item? (write item) = some item) :
    optionalList? item? (some (.array (items.map write))) = some (some items) := by
  have all : (items.map write).mapM item? = some items := by
    induction items with
    | nil => rfl
    | cons head tail induction =>
        have parts := List.forall_mem_cons.mp reads
        rw [List.map_cons, List.mapM_cons, parts.1, induction parts.2]
        rfl
  rw [optionalList?, all]
  rfl

/-! ## Reading extensions -/

/-- The extensions that are not named like the code. -/
def others (error : ResponseError) : List (String × Json) :=
  error.extensions.filter fun entry => entry.1 != "code"

/-- What is read back from the form of an error, as far as its extensions allow it. -/
def readBack (error : ResponseError) : Option ResponseError :=
  match Named.value? error.extensions "code" with
  | none => some { error with kind := .unhandled }
  | some .null => some { error with kind := .unhandled, code := none, extensions := error.others }
  | some (.string code) =>
      some { error with kind := .unhandled, code := some code, extensions := error.others }
  | some _ => none

private theorem others_eq (unnamed : "code" ∉ Named.names error.extensions) :
    error.others = error.extensions := by
  refine List.filter_eq_self.mpr fun entry listed => ?_
  have apart : entry.1 ≠ "code" := fun same => unnamed (same ▸ List.mem_map_of_mem listed)
  simpa using apart

private theorem merged_others (sound : error.Sound) :
    (Named.ofList error.extensionEntries).filter (fun entry => entry.1 != "code") =
      error.others := by
  have distinct : (Named.names error.others).Nodup :=
    sound.distinct.sublist (List.filter_sublist.map _)
  rw [Named.ofList, Named.filter_foldl_put, extensionEntries, List.filter_append]
  have none : ((error.code.map fun code => ("code", Json.string code)).toList.filter
      fun entry => entry.1 != "code") = [] := by
    cases error.code <;> rfl
  rw [none]
  exact Named.ofList_of_distinct distinct

private theorem merged_code (sound : error.Sound) :
    Named.value? (Named.ofList error.extensionEntries) "code" =
      (Named.value? error.extensions "code").or (error.code.map Json.string) := by
  have base : Named.value? ((error.code.map fun code => ("code", Json.string code)).toList)
      "code" = error.code.map Json.string := by
    cases error.code <;> rfl
  have once : Named.ofList error.extensionEntries = error.extensions.foldl Named.put
      (error.code.map fun code => ("code", Json.string code)).toList := by
    rw [Named.ofList, extensionEntries, List.foldl_append]
    cases error.code <;> rfl
  rw [once, Named.value?_foldl_put sound.distinct, base]

/-- The form of the extensions, if there are any. -/
private def extensionsJson? (error : ResponseError) : Option Json :=
  if error.extensionEntries.isEmpty then none
  else some (.object (Named.ofList error.extensionEntries))

private theorem entries_eq (error : ResponseError) :
    error.entries = ("message", .string error.message) ::
      (error.locations.map fun positions =>
        ("locations", Json.array (positions.map locationJson))).toList ++
      (error.path.map fun path => ("path", Json.array (path.map PathSegment.toJson))).toList ++
      (error.extensionsJson?.map fun extensions => ("extensions", extensions)).toList := by
  rw [entries, extensionsJson?]
  split <;> rfl

private theorem value?_entries (error : ResponseError) :
    Named.value? error.entries "message" = some (.string error.message) ∧
    Named.value? error.entries "locations" =
      error.locations.map (fun positions => .array (positions.map locationJson)) ∧
    Named.value? error.entries "path" =
      error.path.map (fun path => .array (path.map PathSegment.toJson)) ∧
    Named.value? error.entries "extensions" = error.extensionsJson? := by
  have nothing (name : String) : Named.value? ([] : List (String × Json)) name = none := rfl
  rw [entries_eq]
  cases error.extensionsJson? <;>
    simp [Named.value?_append, Named.value?_cons, Named.value?_toList, nothing]

private theorem extensions?_extensionsJson? (sound : error.Sound) :
    extensions? error.extensionsJson? =
      match Named.value? error.extensions "code" with
      | none => some (error.code, error.extensions)
      | some .null => some (none, error.others)
      | some (.string code) => some (some code, error.others)
      | some _ => none := by
  rw [extensionsJson?]
  split
  · rename_i isEmpty
    have parts := List.append_eq_nil_iff.mp (List.isEmpty_iff.mp isEmpty)
    have noCode : error.code = none := by simpa using parts.1
    rw [parts.2, noCode]
    rfl
  · rw [extensions?]
    simp only [merged_others sound, merged_code sound]
    cases found : Named.value? error.extensions "code" with
    | none =>
        rw [others_eq (Named.value?_eq_none.mp found)]
        cases error.code <;> rfl
    | some value => cases value <;> rfl

/-! ## Errors that are read back -/

private theorem ofJson?_toJson (sound : error.Sound) : ofJson? error.toJson = error.readBack := by
  rcases value?_entries error with ⟨isMessage, isLocations, isPath, isExtensions⟩
  have locations : optionalList? location? (Named.value? error.entries "locations") =
      some error.locations := by
    rw [isLocations]
    cases located : error.locations with
    | none => rfl
    | some positions =>
        exact optionalList?_map fun position member =>
          location?_locationJson (sound.located positions located position member)
  have path : optionalList? pathSegment? (Named.value? error.entries "path") = some error.path := by
    rw [isPath]
    cases placed : error.path with
    | none => rfl
    | some segments =>
        exact optionalList?_map fun segment member =>
          pathSegment?_toJson fun index same => sound.placed segments placed index (same ▸ member)
  rw [toJson, ofJson?, isMessage, ofParts?]
  simp only [locations, path, isExtensions, extensions?_extensionsJson? sound, readBack]
  cases Named.value? error.extensions "code" with
  | none => rfl
  | some value => cases value <;> rfl

private theorem readBack_eq_iff :
    error.readBack = some { error with kind := .unhandled } ↔
      "code" ∉ Named.names error.extensions := by
  rw [readBack, ← Named.value?_eq_none]
  have dropped (same : error.others = error.extensions) :
      Named.value? error.extensions "code" = none := by
    refine Named.value?_eq_none.mpr fun named => ?_
    rcases List.mem_map.mp named with ⟨entry, listed, isName⟩
    rw [← same] at listed
    have apart := (List.mem_filter.mp listed).2
    have isCode : entry.1 = "code" := isName
    simp [isCode] at apart
  cases found : Named.value? error.extensions "code" with
  | none => simp
  | some value =>
      have kept : error.others ≠ error.extensions := fun same => by
        rw [dropped same] at found
        cases found
      cases value <;> simp [kept]

/-! ## Keys that are written -/

/-- The form as it is written, entry by entry. -/
def written (error : ResponseError) : Json :=
  .object (("message", .string error.message) ::
    (error.locations.map fun positions =>
      ("locations", Json.array (positions.map locationJson))).toList ++
    (error.path.map fun path => ("path", Json.array (path.map PathSegment.toJson))).toList ++
    (if error.extensionEntries.isEmpty then []
      else [("extensions", Json.object error.extensionEntries)]))

private theorem unrepeated_locationJson (position : Position) :
    (locationJson position).Unrepeated := by
  refine .object (by simp [Named.names, nameOf]) fun field listed => ?_
  rcases List.mem_cons.mp listed with rfl | listed
  · exact .number _
  · rw [List.mem_singleton.mp listed]
    exact .number _

private theorem unrepeated_segment (segment : PathSegment) : segment.toJson.Unrepeated := by
  cases segment with
  | key name => exact .string name
  | index position => exact .number _

private theorem unrepeated_map {α : Type} {write : α → Json}
    (each : ∀ item, (write item).Unrepeated)
    (items : List α) : (Json.array (items.map write)).Unrepeated :=
  .array (List.forall_mem_map.mpr fun item _ => each item)

private theorem unrepeated_optional {α : Type} {write : α → Json}
    (each : ∀ item, (write item).Unrepeated) (key : String) (part : Option α) :
    ∀ entry ∈ (part.map fun item => (key, write item)).toList, entry.2.Unrepeated := by
  intro entry listed
  rcases Option.map_eq_some_iff.mp (Option.mem_toList.mp listed) with ⟨item, _, rfl⟩
  exact each item

private theorem names_optional_sublist {α : Type} (key : String) (write : α → Json)
    (part : Option α) :
    (Named.names (part.map fun item => (key, write item)).toList).Sublist [key] := by
  cases part with
  | none => exact List.nil_sublist _
  | some item => exact List.Sublist.refl _

private theorem names_extensionEntries_nodup (sound : error.Sound) :
    (Named.names error.extensionEntries).Nodup ↔
      error.code = none ∨ "code" ∉ Named.names error.extensions := by
  rw [extensionEntries]
  cases error.code with
  | none => simpa using sound.distinct
  | some code =>
      have cons : (Named.names (((some code).map fun code => ("code", Json.string code)).toList ++
          error.extensions)) = "code" :: Named.names error.extensions := rfl
      rw [cons, List.nodup_cons]
      simp [sound.distinct]

private theorem written_unrepeated_iff (sound : error.Sound) :
    error.written.Unrepeated ↔
      error.code = none ∨ "code" ∉ Named.names error.extensions := by
  rw [← names_extensionEntries_nodup sound, written]
  constructor
  · intro unrepeated
    cases unrepeated with
    | object _ each =>
        by_cases isEmpty : error.extensionEntries.isEmpty = true
        · rw [List.isEmpty_iff.mp isEmpty]
          exact List.nodup_nil
        · rw [if_neg isEmpty] at each
          have inside := each ("extensions", .object error.extensionEntries)
            (List.mem_append_right _ List.mem_cons_self)
          cases inside with
          | object distinct _ => exact distinct
  · intro distinct
    have last : (Named.names (if error.extensionEntries.isEmpty then []
        else [("extensions", Json.object error.extensionEntries)])).Sublist ["extensions"] := by
      split
      · exact List.nil_sublist _
      · exact List.Sublist.refl _
    have extensions : ∀ entry ∈ error.extensionEntries, entry.2.Unrepeated :=
      List.forall_mem_append.mpr ⟨unrepeated_optional .string "code" _, sound.values⟩
    have allKeys : ["message", "locations", "path", "extensions"].Nodup := by decide
    refine .object (allKeys.sublist ?_) (List.forall_mem_append.mpr ⟨List.forall_mem_append.mpr
      ⟨List.forall_mem_cons.mpr ⟨.string _, ?_⟩, ?_⟩, ?_⟩)
    · rw [Named.names, List.map_append, List.map_append, List.map_cons]
      exact (((names_optional_sublist "locations" _ _).append
        (names_optional_sublist "path" _ _)).append last).cons_cons "message"
    · exact unrepeated_optional (unrepeated_map unrepeated_locationJson) "locations" _
    · exact unrepeated_optional (unrepeated_map unrepeated_segment) "path" _
    · split
      · exact List.forall_mem_nil _
      · exact List.forall_mem_singleton.mpr (.object distinct extensions)

private theorem toJson_eq_written (distinct : (Named.names error.extensionEntries).Nodup) :
    error.toJson = error.written := by
  rw [toJson, entries, written, Named.ofList_of_distinct distinct]

/-- An error that was built is read back from its form with everything but its kind, if and only if
no extension is named like the code. Such an extension is read as the code where it can be, and it
is written under a key that the code has already taken, if there is one. -/
theorem Built.read_back (built : Built error) :
    (error.written.Unrepeated ↔ error.code = none ∨ "code" ∉ Named.names error.extensions) ∧
    (error.written.Unrepeated → error.toJson = error.written) ∧
    ofJson? error.toJson = error.readBack ∧
    (ofJson? error.toJson = some { error with kind := .unhandled } ↔
      "code" ∉ Named.names error.extensions) := by
  have sound := built.sound
  have unrepeated := written_unrepeated_iff sound
  have isRead := ofJson?_toJson sound
  refine ⟨unrepeated, fun isUnrepeated => ?_, isRead, ?_⟩
  · exact toJson_eq_written
      ((names_extensionEntries_nodup sound).mpr (unrepeated.mp isUnrepeated))
  · rw [isRead]
    exact readBack_eq_iff

end ResponseError

namespace Courier

/-! A failure with a code, and one whose application names an extension like the code. -/

def lost : ResolverError where
  message := "Lost."
  code := some "LOST"
  extensions := [("weight", .int 3)]

def renamed : ResolverError where
  message := "Lost."
  code := some "LOST"
  extensions := [("code", .string "GONE"), ("weight", .int 3)]

/-- The failure at a place of the response. -/
def located (failure : ResolverError) : ResponseError :=
  (failure.toResponse.withLocations [⟨1, 3⟩]).withPath [.key "parcels", .index 0]

private theorem built {failure : ResolverError}
    (values : ∀ entry ∈ failure.extensions, entry.2.Unrepeated) : (located failure).Built := by
  refine .path (.locations (.resolver values) fun position listed => ?_) fun index listed => ?_
  · rw [List.mem_singleton.mp listed]
    exact ⟨rfl, rfl⟩
  · obtain rfl : index = 0 := by simpa using listed
    rfl

end Courier

/-- The first failure comes back as it was; of the other one the code is lost, and it is written
with a repeated key. -/
theorem ResponseError.Built.read_back_of_courier :
    (Courier.located Courier.lost).Built ∧ (Courier.located Courier.renamed).Built ∧
      ofJson? (Courier.located Courier.lost).toJson =
        some { Courier.located Courier.lost with kind := .unhandled } ∧
      ofJson? (Courier.located Courier.renamed).toJson =
        some { Courier.located Courier.renamed with
          kind := .unhandled
          code := some "GONE"
          extensions := [("weight", .int 3)] } ∧
      ¬(Courier.located Courier.renamed).written.Unrepeated := by
  have lost : (Courier.located Courier.lost).Built :=
    Courier.built (List.forall_mem_singleton.mpr (.number _))
  have renamed : (Courier.located Courier.renamed).Built :=
    Courier.built (List.forall_mem_cons.mpr ⟨.string _, List.forall_mem_singleton.mpr (.number _)⟩)
  have repeated : ¬(Courier.located Courier.renamed).written.Unrepeated := by
    rw [(Built.read_back renamed).1]
    decide
  exact ⟨lost, renamed, (Built.read_back lost).2.2.2.mpr (by decide),
    (Built.read_back renamed).2.2.1.trans rfl, repeated⟩

end GraphQL
