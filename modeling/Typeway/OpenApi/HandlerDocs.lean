import Mathlib.Data.List.Perm.Subperm
import Typeway.OpenApi.Derive

/-!
# The docs of handlers

`apply_handler_docs`: every doc goes to the operation with its operation id, or else to the first
operation that has neither an operation id nor a summary.
-/

namespace Typeway.OpenApi

open Typeway.Core Typeway.Server

variable {Schema : Type}

structure HandlerDoc where
  summary : Str
  description : Str
  operationId : Str
  tags : List Str

def applyDocToOperation (doc : HandlerDoc) (op : Operation Schema) : Operation Schema :=
  { op with
    summary := if doc.summary.isEmpty then op.summary else some doc.summary
    description := if doc.description.isEmpty then op.description else some doc.description
    operationId := some doc.operationId
    tags := if doc.tags.isEmpty then op.tags else doc.tags }

/-- The loop over `all_operations_mut` up to the first operation with the property. -/
def PathItem.updateFirst (p : Operation Schema → Bool) (f : Operation Schema → Operation Schema)
    (item : PathItem Schema) : Option (PathItem Schema) :=
  (standardMethods.find? fun m => (item.operation m).any p).bind fun m =>
    (item.operation m).map fun op => item.setOperation m (f op)

/-- The loop over the paths around it. -/
def updateFirst (p : Operation Schema → Bool) (f : Operation Schema → Operation Schema) :
    List (Str × PathItem Schema) → Option (List (Str × PathItem Schema))
  | [] => none
  | (path, item) :: rest =>
    match item.updateFirst p f with
    | some item => some ((path, item) :: rest)
    | none => (updateFirst p f rest).map ((path, item) :: ·)

namespace OpenApiSpec

variable (spec : OpenApiSpec Schema)

def updateFirst (p : Operation Schema → Bool) (f : Operation Schema → Operation Schema) :
    Option (OpenApiSpec Schema) :=
  (OpenApi.updateFirst p f spec.paths).map fun paths => { spec with paths }

/-- Both passes for one doc. -/
def applyHandlerDoc (doc : HandlerDoc) : OpenApiSpec Schema :=
  ((spec.updateFirst (fun op => op.operationId = some doc.operationId)
    (applyDocToOperation doc)).or
    (spec.updateFirst (fun op => op.operationId.isNone && op.summary.isNone)
      (applyDocToOperation doc))).getD spec

def applyHandlerDocs (docs : List HandlerDoc) : OpenApiSpec Schema :=
  docs.foldl applyHandlerDoc spec

end OpenApiSpec

/-! ## The first of a list -/

section First

variable {α : Type}

/-- The change of the first element with the property. -/
def replaceFirst (p : α → Bool) (f : α → α) : List α → List α
  | [] => []
  | a :: rest => if p a then f a :: rest else a :: replaceFirst p f rest

variable {p : α → Bool} {f : α → α}

theorem replaceFirst_cons_neg {a : α} (other : p a = false) (rest : List α) :
    replaceFirst p f (a :: rest) = a :: replaceFirst p f rest :=
  if_neg (by rw [other]; exact Bool.false_ne_true)

theorem replaceFirst_append {front : List α} (others : ∀ a ∈ front, p a = false)
    (rest : List α) : replaceFirst p f (front ++ rest) = front ++ replaceFirst p f rest := by
  induction front with
  | nil => rfl
  | cons a front ih =>
    obtain ⟨here, others⟩ := List.forall_mem_cons.1 others
    rw [List.cons_append, replaceFirst_cons_neg here, ih others, List.cons_append]

theorem replaceFirst_append_of_mem {front : List α} (found : front.any p = true)
    (rest : List α) : replaceFirst p f (front ++ rest) = replaceFirst p f front ++ rest := by
  induction front with
  | nil => cases found
  | cons a front ih =>
    rw [List.cons_append]
    by_cases here : p a = true
    · rw [replaceFirst, if_pos here, replaceFirst, if_pos here, List.cons_append]
    · have other := eq_false_of_ne_true here
      rw [List.any_cons, other, Bool.false_or] at found
      rw [replaceFirst_cons_neg other, replaceFirst_cons_neg other, ih found, List.cons_append]

end First

/-! ## What an update does to the operations -/

section Update

variable {p : Operation Schema → Bool} {f : Operation Schema → Operation Schema}

/-- A property of an operation and a change of it, wherever it is. -/
def onOperation (p : Operation Schema → Bool) (x : (Str × Method) × Operation Schema) : Bool :=
  p x.2

def mapOperation (f : Operation Schema → Operation Schema)
    (x : (Str × Method) × Operation Schema) : (Str × Method) × Operation Schema :=
  (x.1, f x.2)

/-- The operations of a path with these methods. -/
def operationsOf (methods : List Method) (path : Str) (item : PathItem Schema) :
    List ((Str × Method) × Operation Schema) :=
  methods.filterMap fun m => (item.operation m).map fun op => ((path, m), op)

theorem operationsOf_cons_none {m : Method} {item : PathItem Schema}
    (none : item.operation m = none) (methods : List Method) (path : Str) :
    operationsOf (m :: methods) path item = operationsOf methods path item := by
  rw [operationsOf, List.filterMap_cons_none (by rw [none]; rfl), operationsOf]

theorem operationsOf_cons_some {m : Method} {item : PathItem Schema} {op : Operation Schema}
    (some : item.operation m = some op) (methods : List Method) (path : Str) :
    operationsOf (m :: methods) path item =
      ((path, m), op) :: operationsOf methods path item := by
  rw [operationsOf, List.filterMap_cons_some (by rw [some]; rfl), operationsOf]

theorem operationsOf_setOperation {m : Method} {methods : List Method} (absent : m ∉ methods)
    (path : Str) (item : PathItem Schema) (op : Operation Schema) :
    operationsOf methods path (item.setOperation m op) = operationsOf methods path item := by
  apply List.filterMap_congr
  intro m' mem
  rw [PathItem.operation_setOperation, if_neg]
  rintro ⟨rfl, -⟩
  exact absent mem

theorem operationsOf_updated {methods : List Method} (apart : methods.Nodup)
    (standard : ∀ m ∈ methods, m ∈ standardMethods) {item : PathItem Schema} {m : Method}
    (found : (methods.find? fun m => (item.operation m).any p) = some m) (path : Str) :
    ∃ op, item.operation m = some op ∧ operationsOf methods path (item.setOperation m (f op)) =
      replaceFirst (onOperation p) (mapOperation f) (operationsOf methods path item) := by
  induction methods with
  | nil => cases found
  | cons m' methods ih =>
    obtain ⟨fresh, apart⟩ := List.nodup_cons.1 apart
    obtain ⟨here, standard⟩ := List.forall_mem_cons.1 standard
    rw [List.find?_cons] at found
    cases own : item.operation m' with
    | none =>
      rw [own] at found
      obtain ⟨op, there, updated⟩ := ih apart standard found
      have other : m' ≠ m := by
        rintro rfl
        rw [own] at there
        cases there
      refine ⟨op, there, ?_⟩
      rw [operationsOf_cons_none own, ← updated, operationsOf_cons_none]
      rw [PathItem.operation_setOperation, if_neg fun h => other h.1, own]
    | some op' =>
      rw [own] at found
      by_cases first : p op' = true
      · have same : m' = m := by simpa [first] using found
        subst same
        refine ⟨op', own, ?_⟩
        have replaced : replaceFirst (onOperation p) (mapOperation f)
            (((path, m'), op') :: operationsOf methods path item) =
              ((path, m'), f op') :: operationsOf methods path item := if_pos first
        rw [operationsOf_cons_some own, replaced, operationsOf_cons_some,
          operationsOf_setOperation fresh]
        rw [PathItem.operation_setOperation, if_pos ⟨rfl, here⟩]
      · have later : (methods.find? fun m => (item.operation m).any p) = some m := by
          simpa [first] using found
        obtain ⟨op, there, updated⟩ := ih apart standard later
        have other : m' ≠ m := by
          rintro rfl
          exact fresh (List.mem_of_find?_eq_some later)
        refine ⟨op, there, ?_⟩
        have kept : onOperation p ((path, m'), op') = false := eq_false_of_ne_true first
        rw [operationsOf_cons_some own, replaceFirst_cons_neg kept, ← updated,
          operationsOf_cons_some]
        rw [PathItem.operation_setOperation, if_neg fun h => other h.1, own]

theorem find?_operationsOf (methods : List Method) (path : Str) (item : PathItem Schema) :
    (methods.find? fun m => (item.operation m).any p).isSome =
      (operationsOf methods path item).any (onOperation p) := by
  induction methods with
  | nil => rfl
  | cons m methods ih =>
    rw [List.find?_cons]
    cases own : item.operation m with
    | none =>
      rw [operationsOf_cons_none own, ← ih]
      rfl
    | some op =>
      rw [operationsOf_cons_some own, List.any_cons, ← ih]
      show (match p op with
        | true => some m
        | false => methods.find? fun m => (item.operation m).any p).isSome = (p op || _)
      cases p op <;> rfl

theorem PathItem.updateFirst_eq_some {item item' : PathItem Schema}
    (updated : item.updateFirst p f = some item') (path : Str) :
    (operationsOf standardMethods path item).any (onOperation p) = true ∧
      operationsOf standardMethods path item' =
        replaceFirst (onOperation p) (mapOperation f) (operationsOf standardMethods path item) := by
  obtain ⟨m, found, updated⟩ := Option.bind_eq_some_iff.1 updated
  obtain ⟨op, there, rfl⟩ := Option.map_eq_some_iff.1 updated
  rw [← find?_operationsOf, found]
  obtain ⟨op', there', replaced⟩ :=
    operationsOf_updated (f := f) (by decide) (fun m mem => mem) found path
  rw [there] at there'
  cases there'
  exact ⟨rfl, replaced⟩

theorem PathItem.updateFirst_eq_none {item : PathItem Schema}
    (none : item.updateFirst p f = none) (path : Str) :
    (operationsOf standardMethods path item).any (onOperation p) = false := by
  rw [← find?_operationsOf]
  cases found : standardMethods.find? fun m => (item.operation m).any p with
  | none => rfl
  | some m =>
    have any := List.find?_some found
    rw [PathItem.updateFirst, found, Option.bind_some] at none
    rw [Option.map_eq_none_iff.1 none] at any
    cases any

theorem updateFirst_eq_some {paths paths' : List (Str × PathItem Schema)}
    (updated : updateFirst p f paths = some paths') :
    (paths.flatMap fun e => operationsOf standardMethods e.1 e.2).any (onOperation p) = true ∧
      (paths'.flatMap fun e => operationsOf standardMethods e.1 e.2) =
        replaceFirst (onOperation p) (mapOperation f)
          (paths.flatMap fun e => operationsOf standardMethods e.1 e.2) ∧
      paths'.map Prod.fst = paths.map Prod.fst := by
  induction paths generalizing paths' with
  | nil => cases updated
  | cons e paths ih =>
    obtain ⟨path, item⟩ := e
    rw [List.flatMap_cons, updateFirst] at *
    cases here : item.updateFirst p f with
    | some item' =>
      rw [here] at updated
      cases updated
      obtain ⟨found, replaced⟩ := PathItem.updateFirst_eq_some here path
      rw [List.any_append, found, replaceFirst_append_of_mem found, List.flatMap_cons, replaced]
      exact ⟨rfl, rfl, rfl⟩
    | none =>
      rw [here] at updated
      obtain ⟨rest, later, rfl⟩ := Option.map_eq_some_iff.1 updated
      obtain ⟨found, replaced, keys⟩ := ih later
      have others := PathItem.updateFirst_eq_none here path
      rw [List.any_append, found, Bool.or_true, List.flatMap_cons, replaced, List.map_cons, keys,
        replaceFirst_append fun x mem => eq_false_of_ne_true (List.any_eq_false.1 others x mem)]
      exact ⟨rfl, rfl, rfl⟩

theorem updateFirst_eq_none {paths : List (Str × PathItem Schema)}
    (none : updateFirst p f paths = none) :
    (paths.flatMap fun e => operationsOf standardMethods e.1 e.2).any (onOperation p) = false := by
  induction paths with
  | nil => rfl
  | cons e paths ih =>
    obtain ⟨path, item⟩ := e
    rw [updateFirst] at none
    cases here : item.updateFirst p f with
    | some item' =>
      rw [here] at none
      cases none
    | none =>
      rw [here] at none
      rw [List.flatMap_cons, List.any_append, PathItem.updateFirst_eq_none here path,
        ih (Option.map_eq_none_iff.1 none)]
      rfl

namespace OpenApiSpec

variable {spec spec' : OpenApiSpec Schema}

theorem updateFirst_eq_some (updated : spec.updateFirst p f = some spec') :
    spec.operations.any (onOperation p) = true ∧
      spec'.operations = replaceFirst (onOperation p) (mapOperation f) spec.operations ∧
      spec'.paths.map Prod.fst = spec.paths.map Prod.fst := by
  obtain ⟨paths, found, rfl⟩ := Option.map_eq_some_iff.1 updated
  exact OpenApi.updateFirst_eq_some found

theorem updateFirst_eq_none (none : spec.updateFirst p f = none) :
    spec.operations.any (onOperation p) = false :=
  OpenApi.updateFirst_eq_none (Option.map_eq_none_iff.1 none)

end OpenApiSpec

end Update

/-! ## What the docs do to the operations -/

/-- The operation has no docs yet. -/
def Operation.undocumented (op : Operation Schema) : Bool :=
  op.operationId.isNone && op.summary.isNone

/-- The docs, one by one, on the operations in their order. -/
def documented : List ((Str × Method) × Operation Schema) → List HandlerDoc →
    List ((Str × Method) × Operation Schema)
  | ops, [] => ops
  | [], _ :: _ => []
  | x :: ops, doc :: docs => mapOperation (applyDocToOperation doc) x :: documented ops docs

theorem documented_none (ops : List ((Str × Method) × Operation Schema)) :
    documented ops [] = ops := by
  cases ops <;> rfl

theorem documented_one (x : (Str × Method) × Operation Schema)
    (ops : List ((Str × Method) × Operation Schema)) (doc : HandlerDoc) :
    documented (x :: ops) [doc] = mapOperation (applyDocToOperation doc) x :: ops := by
  rw [documented, documented_none]

namespace OpenApiSpec

variable {spec : OpenApiSpec Schema}

/-- One doc more goes to the first operation that has none. -/
theorem operations_applyHandlerDoc {done todo : List ((Str × Method) × Operation Schema)}
    {doc : HandlerDoc} (split : spec.operations = done ++ todo)
    (others : ∀ x ∈ done, x.2.operationId ≠ none ∧ x.2.operationId ≠ some doc.operationId)
    (fresh : ∀ x ∈ todo, x.2.operationId = none ∧ x.2.summary = none) :
    (spec.applyHandlerDoc doc).operations = done ++ documented todo [doc] ∧
      (spec.applyHandlerDoc doc).paths.map Prod.fst = spec.paths.map Prod.fst := by
  have unmatched : spec.operations.any
      (onOperation fun op => op.operationId = some doc.operationId) = false := by
    rw [split, List.any_append, Bool.or_eq_false_iff]
    constructor
    · apply List.any_eq_false.2
      intro x mem same
      exact (others x mem).2 (of_decide_eq_true same)
    · apply List.any_eq_false.2
      intro x mem same
      have id := of_decide_eq_true same
      rw [(fresh x mem).1] at id
      cases id
  have first : spec.updateFirst (fun op => op.operationId = some doc.operationId)
      (applyDocToOperation doc) = none := by
    cases updated : spec.updateFirst (fun op => op.operationId = some doc.operationId)
        (applyDocToOperation doc) with
    | none => rfl
    | some spec' => exact absurd ((updateFirst_eq_some updated).1.symm.trans unmatched) (by decide)
  have kept : ∀ x ∈ done, onOperation Operation.undocumented x = false := by
    intro x mem
    rw [onOperation, Operation.undocumented, Option.isNone_eq_false_iff.2
      (Option.isSome_iff_ne_none.2 (others x mem).1), Bool.false_and]
  have applied : spec.applyHandlerDoc doc =
      (spec.updateFirst Operation.undocumented (applyDocToOperation doc)).getD spec := by
    rw [applyHandlerDoc, first, Option.none_or]
    rfl
  rw [applied]
  cases updated : spec.updateFirst Operation.undocumented (applyDocToOperation doc) with
  | none =>
    have none := updateFirst_eq_none updated
    cases todo with
    | nil => exact ⟨split, rfl⟩
    | cons x todo =>
      have free := fresh x List.mem_cons_self
      have here : onOperation Operation.undocumented x = true := by
        rw [onOperation, Operation.undocumented, free.1, free.2]
        rfl
      have mem : x ∈ spec.operations := by
        rw [split]
        exact List.mem_append_right _ List.mem_cons_self
      exact absurd here (List.any_eq_false.1 none x mem)
  | some spec' =>
    obtain ⟨found, replaced, keys⟩ := updateFirst_eq_some updated
    refine ⟨?_, keys⟩
    rw [Option.getD_some, replaced, split, replaceFirst_append kept]
    cases todo with
    | nil => rfl
    | cons x todo =>
      have free := fresh x List.mem_cons_self
      have here : onOperation Operation.undocumented x = true := by
        rw [onOperation, Operation.undocumented, free.1, free.2]
        rfl
      rw [replaceFirst, if_pos here, documented_one]

theorem operations_applyHandlerDocs {done todo : List ((Str × Method) × Operation Schema)}
    {docs : List HandlerDoc} (split : spec.operations = done ++ todo)
    (apart : (docs.map HandlerDoc.operationId).Nodup)
    (others : ∀ x ∈ done, ∃ id, x.2.operationId = some id ∧ id ∉ docs.map HandlerDoc.operationId)
    (fresh : ∀ x ∈ todo, x.2.operationId = none ∧ x.2.summary = none) :
    (spec.applyHandlerDocs docs).operations = done ++ documented todo docs ∧
      (spec.applyHandlerDocs docs).paths.map Prod.fst = spec.paths.map Prod.fst := by
  induction docs generalizing spec done todo with
  | nil =>
    cases todo <;> exact ⟨split, rfl⟩
  | cons doc docs ih =>
    obtain ⟨new, apart⟩ := List.nodup_cons.1 apart
    have others' : ∀ x ∈ done,
        x.2.operationId ≠ none ∧ x.2.operationId ≠ some doc.operationId := by
      intro x mem
      obtain ⟨id, own, absent⟩ := others x mem
      rw [own]
      refine ⟨Option.some_ne_none id, ?_⟩
      intro same
      cases same
      exact absent List.mem_cons_self
    obtain ⟨applied, keys⟩ := operations_applyHandlerDoc split others' fresh
    have still : ∀ x ∈ done, ∃ id,
        x.2.operationId = some id ∧ id ∉ docs.map HandlerDoc.operationId := by
      intro x mem
      obtain ⟨id, own, absent⟩ := others x mem
      exact ⟨id, own, fun later => absent (List.mem_cons_of_mem _ later)⟩
    have next : (spec.applyHandlerDocs (doc :: docs)) =
        (spec.applyHandlerDoc doc).applyHandlerDocs docs := rfl
    rw [next, ← keys]
    cases todo with
    | nil =>
      obtain ⟨ops, keys'⟩ := ih applied apart still (List.forall_mem_nil _)
      refine ⟨?_, keys'⟩
      rw [ops]
      cases docs <;> rfl
    | cons x todo =>
      obtain ⟨_, fresh⟩ := List.forall_mem_cons.1 fresh
      have moved : (spec.applyHandlerDoc doc).operations =
          (done ++ [mapOperation (applyDocToOperation doc) x]) ++ todo := by
        rw [applied, documented_one, List.append_assoc]
        rfl
      obtain ⟨ops, keys'⟩ := ih moved apart (by
        intro y mem
        rcases List.mem_append.1 mem with before | here
        · exact still y before
        · rw [List.mem_singleton.1 here]
          exact ⟨doc.operationId, rfl, new⟩) fresh
      refine ⟨?_, keys'⟩
      rw [ops, List.append_assoc]
      rfl

end OpenApiSpec

theorem getElem?_documented (ops : List ((Str × Method) × Operation Schema))
    (docs : List HandlerDoc) (i : Nat) :
    (documented ops docs)[i]? = ops[i]?.map fun x =>
      docs[i]?.elim x fun doc => mapOperation (applyDocToOperation doc) x := by
  induction ops generalizing docs i with
  | nil => cases docs <;> simp [documented]
  | cons x ops ih =>
    cases docs with
    | nil =>
      rw [documented_none]
      cases (x :: ops)[i]? <;> rfl
    | cons doc docs =>
      cases i with
      | zero => rfl
      | succ i => exact ih docs i

/-! ## The order of the operations -/

/-- The places of the endpoints path by path, the paths in the order in which they first occur and
the methods in the order of a path item. -/
def grouped (es : List (Endpoint Schema)) : List (Str × Method) :=
  (IndexMap.firsts (es.map Endpoint.pathPattern)).flatMap fun path =>
    (standardMethods.filter fun m => (es.map Endpoint.place).contains (path, m)).map
      fun m => (path, m)

theorem OpenApiSpec.keys_foldl_collect (es : List (Endpoint Schema)) (spec : OpenApiSpec Schema) :
    (es.foldl OpenApiSpec.collect spec).paths.map Prod.fst =
      (es.map Endpoint.pathPattern).foldl IndexMap.addKey (spec.paths.map Prod.fst) := by
  induction es generalizing spec with
  | nil => rfl
  | cons e es ih =>
    rw [List.foldl_cons, ih, List.map_cons, List.foldl_cons, OpenApiSpec.collect,
      IndexMap.keys_insert]

theorem OpenApiSpec.isSome_lastAt {path : Str} {m : Method} (standard : m ∈ standardMethods)
    (es : List (Endpoint Schema)) :
    (OpenApiSpec.lastAt (path, m) es).isSome = (es.map Endpoint.place).contains (path, m) := by
  induction es with
  | nil => rfl
  | cons e es ih =>
    rw [OpenApiSpec.lastAt, Option.isSome_or, ih, List.map_cons, List.contains_cons, Bool.or_comm]
    congr 1
    by_cases here : (path, m) = e.place
    · have own : e.method ∈ standardMethods := by
        rw [← show m = e.method from congrArg Prod.snd here]
        exact standard
      rw [if_pos ⟨here, own⟩, here, beq_self_eq_true]
      rfl
    · rw [if_neg fun h => here h.1]
      exact (beq_eq_false_iff_ne.2 here).symm

section ToSpec

variable (api : List (Api Schema)) (title version : Str)

theorem toSpec_keys : (toSpec api title version).paths.map Prod.fst =
    IndexMap.firsts ((endpointsOf api).map Endpoint.pathPattern) := by
  rw [toSpec_paths, autoTagOperations, List.map_map]
  exact OpenApiSpec.keys_foldl_collect (endpointsOf api) _

theorem toSpec_places :
    (toSpec api title version).operations.map Prod.fst = grouped (endpointsOf api) := by
  rw [OpenApiSpec.map_fst_operations, grouped, ← toSpec_keys api title version, List.flatMap_map]
  apply List.flatMap_congr
  intro e mem
  congr 1
  apply List.filter_congr
  intro m standard
  have there := toSpec_operationAt api title version (e.1, m)
  rw [OpenApiSpec.operationAt, IndexMap.lookup_of_mem (toSpec_keyed api title version) mem,
    Option.bind_some] at there
  rw [there, Option.isSome_map, OpenApiSpec.isSome_lastAt standard]

theorem length_grouped : (grouped (endpointsOf api)).length ≤ (endpointsOf api).length := by
  have apart : (grouped (endpointsOf api)).Nodup := by
    rw [← toSpec_places api [] []]
    exact OpenApiSpec.places_nodup (toSpec_keyed api [] [])
  have own : grouped (endpointsOf api) ⊆ (endpointsOf api).map Endpoint.place := by
    intro place mem
    obtain ⟨path, -, mem⟩ := List.mem_flatMap.1 mem
    obtain ⟨m, here, rfl⟩ := List.mem_map.1 mem
    exact List.contains_iff_mem.1 (List.mem_filter.1 here).2
  have most := (apart.subperm own).length_le
  rwa [List.length_map] at most

theorem Endpoint.toOperation_undocumented (e : Endpoint Schema) :
    e.toOperation.operationId = none ∧ e.toOperation.summary = none := by
  induction e with
  | bodyless M P path res query err => exact ⟨rfl, rfl⟩
  | withBody M P path req res query err => exact ⟨rfl, rfl⟩
  | requires inner ih => exact ih
  | deprecated inner ih => exact ih
  | protectedBy inner ih => exact ih
  | validated inner ih => exact ih

theorem toSpec_undocumented : ∀ x ∈ (toSpec api title version).operations,
    x.2.operationId = none ∧ x.2.summary = none := by
  intro x mem
  obtain ⟨place, op⟩ := x
  obtain ⟨found, last, rfl⟩ := (mem_toSpec api title version).1 mem
  obtain ⟨e, -, -, -, rfl⟩ := OpenApiSpec.lastAt_eq_some last
  have none := e.toOperation_undocumented
  rw [autoTag]
  split <;> exact none

end ToSpec

/-! ## Where the docs land -/

/-- The operation `op'` is `op` with the doc on it. An empty text or an empty list of tags leaves
what was there. -/
structure Documents (doc : HandlerDoc) (op op' : Operation Schema) : Prop where
  operationId : op'.operationId = some doc.operationId
  summary : doc.summary ≠ [] → op'.summary = some doc.summary
  description : doc.description ≠ [] → op'.description = some doc.description
  tags : doc.tags ≠ [] → op'.tags = doc.tags
  noSummary : doc.summary = [] → op'.summary = op.summary
  noDescription : doc.description = [] → op'.description = op.description
  noTags : doc.tags = [] → op'.tags = op.tags
  parameters : op'.parameters = op.parameters
  requestBody : op'.requestBody = op.requestBody
  responses : op'.responses = op.responses
  security : op'.security = op.security
  deprecated : op'.deprecated = op.deprecated

theorem documents_apply (doc : HandlerDoc) (op : Operation Schema) :
    Documents doc op (applyDocToOperation doc op) where
  operationId := rfl
  summary some := if_neg (by simpa using some)
  description some := if_neg (by simpa using some)
  tags some := if_neg (by simpa using some)
  noSummary none := if_pos (by simpa using none)
  noDescription none := if_pos (by simpa using none)
  noTags none := if_pos (by simpa using none)
  parameters := rfl
  requestBody := rfl
  responses := rfl
  security := rfl
  deprecated := rfl

/-- The operation of the place, and no other one, has got the doc. -/
structure LandsOn (before after : OpenApiSpec Schema) (place : Str × Method) (doc : HandlerDoc) :
    Prop where
  here : ∃ op op', before.operationAt place = some op ∧ after.operationAt place = some op' ∧
    Documents doc op op'
  alone : ∀ place' op, after.operationAt place' = some op →
    op.operationId = some doc.operationId → place' = place

/-- Every doc has landed on the operation of its endpoint, and the operations of other endpoints
are what they were. -/
structure DocsLand (api : List (Api Schema)) (title version : Str) (docs : List HandlerDoc) :
    Prop where
  lands : ∀ (i : Nat) (e : Endpoint Schema) (doc : HandlerDoc), (endpointsOf api)[i]? = some e → docs[i]? = some doc →
    LandsOn (toSpec api title version) ((toSpec api title version).applyHandlerDocs docs) e.place doc
  others : ∀ place,
    (∀ (i : Nat) (e : Endpoint Schema), i < docs.length → (endpointsOf api)[i]? = some e →
      place ≠ e.place) →
    ((toSpec api title version).applyHandlerDocs docs).operationAt place =
      (toSpec api title version).operationAt place

/-- The endpoints with docs come in the order of the operations, and before all others. -/
def InOrder (es : List (Endpoint Schema)) (docs : List HandlerDoc) : Prop :=
  ∀ (i : Nat) (e : Endpoint Schema), i < docs.length → es[i]? = some e →
    (grouped es)[i]? = some e.place

section Lands

variable (api : List (Api Schema)) (title version : Str) {docs : List HandlerDoc}

theorem operations_docs (apart : (docs.map HandlerDoc.operationId).Nodup) :
    ((toSpec api title version).applyHandlerDocs docs).operations =
        documented (toSpec api title version).operations docs ∧
      IndexMap.Keyed ((toSpec api title version).applyHandlerDocs docs).paths := by
  obtain ⟨ops, keys⟩ := OpenApiSpec.operations_applyHandlerDocs
    (List.nil_append (toSpec api title version).operations).symm apart
    (List.forall_mem_nil _) (toSpec_undocumented api title version)
  refine ⟨ops, ?_⟩
  rw [IndexMap.Keyed, keys]
  exact toSpec_keyed api title version

/-- The operation of a doc is the one with its number. -/
theorem docs_position (apart : (docs.map HandlerDoc.operationId).Nodup) {i : Nat}
    {doc : HandlerDoc} (there : docs[i]? = some doc) {place : Str × Method}
    {op : Operation Schema}
    (found : ((toSpec api title version).applyHandlerDocs docs).operationAt place = some op)
    (id : op.operationId = some doc.operationId) :
    (grouped (endpointsOf api))[i]? = some place := by
  obtain ⟨ops, keyed⟩ := operations_docs api title version apart
  rw [← OpenApiSpec.mem_operations keyed, ops] at found
  obtain ⟨j, here⟩ := List.getElem?_of_mem found
  rw [getElem?_documented] at here
  obtain ⟨x, own, here⟩ := Option.map_eq_some_iff.1 here
  have mem := List.mem_of_getElem? own
  cases docJ : docs[j]? with
  | none =>
    rw [docJ] at here
    obtain rfl : x = (place, op) := here
    rw [(toSpec_undocumented api title version _ mem).1] at id
    cases id
  | some doc' =>
    rw [docJ] at here
    replace here : (x.1, applyDocToOperation doc' x.2) = (place, op) := here
    obtain ⟨rfl, rfl⟩ := Prod.mk.inj here
    have same : doc'.operationId = doc.operationId := Option.some.inj id
    have ids : (docs.map HandlerDoc.operationId)[j]? = (docs.map HandlerDoc.operationId)[i]? := by
      rw [List.getElem?_map, List.getElem?_map, docJ, there, Option.map_some, Option.map_some, same]
    have bound : j < (docs.map HandlerDoc.operationId).length := by
      rw [List.length_map]
      exact (List.getElem?_eq_some_iff.1 docJ).1
    obtain rfl := (List.getElem?_inj bound apart).1 ids
    rw [← toSpec_places api title version, List.getElem?_map, own]
    rfl

/-- An operation of the document, and what the docs make of it. -/
theorem operationAt_docs (apart : (docs.map HandlerDoc.operationId).Nodup) {i : Nat}
    {place : Str × Method} (there : (grouped (endpointsOf api))[i]? = some place) :
    ∃ op, (toSpec api title version).operationAt place = some op ∧
      ((toSpec api title version).applyHandlerDocs docs).operationAt place =
        some (docs[i]?.elim op fun doc => applyDocToOperation doc op) := by
  obtain ⟨ops, keyed⟩ := operations_docs api title version apart
  rw [← toSpec_places api title version, List.getElem?_map] at there
  obtain ⟨x, own, rfl⟩ := Option.map_eq_some_iff.1 there
  refine ⟨x.2, ?_, ?_⟩
  · rw [← OpenApiSpec.mem_operations (toSpec_keyed api title version)]
    exact List.mem_of_getElem? own
  · rw [← OpenApiSpec.mem_operations keyed, ops]
    apply List.mem_of_getElem? (i := i)
    rw [getElem?_documented, own, Option.map_some]
    cases docs[i]? <;> rfl

/-- A place that is none of the operations' has no operation afterwards either. -/
theorem operationAt_docs_none (apart : (docs.map HandlerDoc.operationId).Nodup)
    {place : Str × Method} (absent : place ∉ grouped (endpointsOf api)) :
    ((toSpec api title version).applyHandlerDocs docs).operationAt place = none ∧
      (toSpec api title version).operationAt place = none := by
  obtain ⟨ops, keyed⟩ := operations_docs api title version apart
  rw [← toSpec_places api title version] at absent
  constructor
  · apply Option.eq_none_iff_forall_ne_some.2
    intro op found
    rw [← OpenApiSpec.mem_operations keyed, ops] at found
    obtain ⟨i, here⟩ := List.getElem?_of_mem found
    rw [getElem?_documented] at here
    obtain ⟨x, own, here⟩ := Option.map_eq_some_iff.1 here
    apply absent
    have first : x.1 = place := by
      cases docI : docs[i]? with
      | none =>
        rw [docI] at here
        exact congrArg Prod.fst here
      | some doc =>
        rw [docI] at here
        exact congrArg Prod.fst here
    rw [← first]
    exact List.mem_map_of_mem (List.mem_of_getElem? own)
  · apply Option.eq_none_iff_forall_ne_some.2
    intro op found
    rw [← OpenApiSpec.mem_operations (toSpec_keyed api title version)] at found
    exact absent (List.mem_map_of_mem found)

/-- The docs land on their endpoints exactly when these come first in the document, in their
order. -/
theorem docsLand_iff (apart : (docs.map HandlerDoc.operationId).Nodup) :
    DocsLand api title version docs ↔ InOrder (endpointsOf api) docs := by
  constructor
  · intro land i e bound own
    have there : docs[i]? = some docs[i] := List.getElem?_eq_getElem bound
    obtain ⟨⟨op, op', -, found, documents⟩, -⟩ := land.lands i e docs[i] own there
    exact docs_position api title version apart there found documents.operationId
  · intro order
    constructor
    · intro i e doc own there
      have bound := (List.getElem?_eq_some_iff.1 there).1
      have position := order i e bound own
      obtain ⟨op, before, after⟩ := operationAt_docs api title version apart position
      rw [there] at after
      refine ⟨⟨op, _, before, after, documents_apply doc op⟩, ?_⟩
      intro place' op' found id
      have same := docs_position api title version apart there found id
      rw [position] at same
      exact (Option.some.inj same).symm
    · intro place other
      by_cases mem : place ∈ grouped (endpointsOf api)
      · obtain ⟨i, here⟩ := List.getElem?_of_mem mem
        obtain ⟨op, before, after⟩ := operationAt_docs api title version apart here
        have free : docs[i]? = none := by
          rw [List.getElem?_eq_none_iff]
          by_contra below
          rw [Nat.not_le] at below
          have position := (List.getElem?_eq_some_iff.1 here).1
          have among := Nat.lt_of_lt_of_le position (length_grouped api)
          have first := order i _ below (List.getElem?_eq_getElem among)
          rw [here] at first
          exact other i _ below (List.getElem?_eq_getElem among) (Option.some.inj first)
        rw [free] at after
        rw [before, after]
        rfl
      · obtain ⟨after, before⟩ := operationAt_docs_none api title version apart mem
        rw [before, after]

end Lands

def users : PathSpec :=
  .lit "users".toList .hnil

/-- `GET /users` -/
def listUsers : Endpoint Str :=
  .bodyless .get users (.lit .hnil) { schema := "array".toList, example? := none } [] []

/-- `POST /users` -/
def createUser : Endpoint Str :=
  .withBody .post users (.lit .hnil) { schema := "object".toList, example? := none }
    { schema := "object".toList, example? := none } [] []

def docOf (operationId : String) : HandlerDoc where
  summary := operationId.toList
  description := []
  operationId := operationId.toList
  tags := []

theorem docsLand_users :
    DocsLand [.endpoint listUsers, .endpoint createUser] [] []
      [docOf "list_users", docOf "create_user"] := by
  apply (docsLand_iff _ [] [] (by decide)).2
  intro i e bound own
  match i with
  | 0 =>
    cases own
    rfl
  | 1 =>
    cases own
    rfl

/-- The docs of the first endpoint go to the second one, whose method comes first. -/
theorem not_docsLand_users :
    ¬ DocsLand [.endpoint createUser, .endpoint listUsers] [] []
      [docOf "create_user", docOf "list_users"] := by
  intro land
  have order := (docsLand_iff _ [] [] (by decide)).1 land 0 createUser (by decide) rfl
  have first : (grouped [createUser, listUsers])[0]? = some listUsers.place := rfl
  have same : listUsers.place = createUser.place := Option.some.inj (first.symm.trans order)
  exact absurd (congrArg Prod.snd same) (by decide)

end Typeway.OpenApi
