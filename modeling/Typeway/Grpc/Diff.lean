import Mathlib.Logic.Relation
import Typeway.Base.KeyedDiff
import Typeway.Grpc.ProtoParse

/-!
# Breaking changes between two `.proto` files

`diff.rs` compares two parsed files service by service and message by message. Methods are told
apart by their names and fields by their numbers. What it reports is first said as a difference,
which can be turned round.
-/

namespace Typeway.Grpc

open Checked KeyedDiff Typeway.Core Lines

inductive ChangeKind where
  | compatible
  | breaking
  deriving DecidableEq

structure ProtoChange where
  kind : ChangeKind
  location : Str
  description : Str
  deriving DecidableEq

def breaking (location description : Str) : ProtoChange where
  kind := .breaking
  location := location
  description := description

def compatible (location description : Str) : ProtoChange where
  kind := .compatible
  location := location
  description := description

def dotted (outer inner : Str) : Str :=
  outer ++ ".".toList ++ inner

def turned (what old new : Str) : Str :=
  what ++ ": ".toList ++ old ++ " -> ".toList ++ new

def tagged (what : Str) (tag : UInt32) : Str :=
  what ++ " (tag ".toList ++ decimal tag.toNat ++ ")".toList

/-! ## Services -/

def diffMethod (service : Str) (old new : ProtoRpcMethod) : List ProtoChange :=
  (if new.inputType = old.inputType then []
    else [breaking (dotted service old.name)
      (turned "input type changed".toList old.inputType new.inputType)]) ++
  (if new.outputType = old.outputType then []
    else [breaking (dotted service old.name)
      (turned "output type changed".toList old.outputType new.outputType)])

def diffService (old new : ProtoService) : List ProtoChange :=
  diff ProtoRpcMethod.name
    (fun method => breaking (dotted old.name method.name) "RPC method removed".toList)
    (diffMethod old.name)
    (fun method => compatible (dotted new.name method.name) "RPC method added".toList)
    old.methods new.methods

def diffServices (old new : ProtoFile) : List ProtoChange :=
  diff ProtoService.name
    (fun service => breaking service.name "service removed".toList)
    diffService
    (fun service => compatible service.name "service added".toList)
    old.services new.services

/-! ## Messages -/

def diffField (message : Str) (old new : ParsedField) : List ProtoChange :=
  (if new.protoType = old.protoType then []
    else [breaking (dotted message old.name)
      (turned "type changed".toList old.protoType new.protoType)]) ++
  (if new.name = old.name then []
    else [compatible (tagged message old.tag) (turned "field renamed".toList old.name new.name)])

def diffMessage (old new : ParsedMessage) : List ProtoChange :=
  diff ParsedField.tag
    (fun field => breaking (dotted old.name field.name) (tagged "field removed".toList field.tag))
    (diffField old.name)
    (fun field => compatible (dotted new.name field.name) (tagged "field added".toList field.tag))
    old.fields new.fields

def diffMessages (old new : ProtoFile) : List ProtoChange :=
  diff ParsedMessage.name
    (fun message => breaking message.name "message removed".toList)
    diffMessage
    (fun message => compatible message.name "message added".toList)
    old.messages new.messages

def diffFiles (old new : ProtoFile) : List ProtoChange :=
  diffServices old new ++ diffMessages old new

def diffProtos (old new : Str) : Run Str (List ProtoChange) := do
  let oldFile ← parseProto old
  let newFile ← parseProto new
  .ok (diffFiles oldFile newFile)

/-! ## Nothing breaking -/

namespace ProtoChange

def Breaking (change : ProtoChange) : Prop :=
  change.kind = .breaking

@[simp] theorem breaking_breaking (location description : Str) :
    (breaking location description).Breaking := rfl

@[simp] theorem not_breaking_compatible (location description : Str) :
    ¬ (compatible location description).Breaking := by
  simp [Breaking, compatible]

end ProtoChange

open ProtoChange

/-- The changes are all compatible. -/
def Unbroken (changes : List ProtoChange) : Prop :=
  ∀ c ∈ changes, ¬ c.Breaking

instance (changes : List ProtoChange) : Decidable (Unbroken changes) :=
  inferInstanceAs (Decidable (∀ c ∈ changes, ¬ c.kind = .breaking))

/-- The methods a client may call. -/
def SameMethod (old new : ProtoRpcMethod) : Prop :=
  new.inputType = old.inputType ∧ new.outputType = old.outputType

def SameType (old new : ParsedField) : Prop :=
  new.protoType = old.protoType

/-- The new file has all that the old one has. -/
structure Extends (old new : ProtoFile) : Prop where
  services : KeyedDiff.Kept ProtoService.name
    (fun s s' => KeyedDiff.Kept ProtoRpcMethod.name SameMethod s.methods s'.methods)
    old.services new.services
  messages : KeyedDiff.Kept ParsedMessage.name
    (fun m m' => KeyedDiff.Kept ParsedField.tag SameType m.fields m'.fields)
    old.messages new.messages

theorem forall_mem_unless {γ : Type} {p : Prop} [Decidable p] {x : γ} {P : γ → Prop} :
    (∀ c ∈ (if p then [] else [x]), P c) ↔ p ∨ P x := by
  by_cases holds : p
  · rw [if_pos holds]
    exact iff_of_true (List.forall_mem_nil _) (.inl holds)
  · rw [if_neg holds, List.forall_mem_singleton, or_iff_right holds]

theorem diffMethod_unbroken_iff {service : Str} {old new : ProtoRpcMethod} :
    Unbroken (diffMethod service old new) ↔ SameMethod old new := by
  rw [Unbroken, SameMethod, diffMethod, List.forall_mem_append, forall_mem_unless, forall_mem_unless]
  apply and_congr
  · exact or_iff_left fun fine => fine (breaking_breaking _ _)
  · exact or_iff_left fun fine => fine (breaking_breaking _ _)

theorem diffField_unbroken_iff {message : Str} {old new : ParsedField} :
    Unbroken (diffField message old new) ↔ SameType old new := by
  rw [Unbroken, SameType, diffField, List.forall_mem_append, forall_mem_unless, forall_mem_unless]
  constructor
  · rintro ⟨same | fine, _⟩
    · exact same
    · exact absurd (breaking_breaking _ _) fine
  · exact fun same => ⟨.inl same, .inr (not_breaking_compatible _ _)⟩

theorem diff_unbroken_iff {α κ : Type} [DecidableEq κ] {key : α → κ} {removed added : α → ProtoChange}
    {compare : α → α → List ProtoChange} {R : α → α → Prop} {old new : List α}
    (gone : ∀ a, (removed a).Breaking) (welcome : ∀ b, ¬ (added b).Breaking)
    (each : ∀ a b, Unbroken (compare a b) ↔ R a b) :
    Unbroken (diff key removed compare added old new) ↔ KeyedDiff.Kept key R old new := by
  have kept : Unbroken (diff key removed compare added old new) ↔
      KeyedDiff.Kept key (fun a b => ∀ c ∈ compare a b, ¬ c.Breaking) old new :=
    forall_diff_iff welcome fun a fine => fine (gone a)
  have same : (fun a b => ∀ c ∈ compare a b, ¬ c.Breaking) = R :=
    funext₂ fun a b => propext (each a b)
  rwa [same] at kept

theorem diffService_unbroken_iff {old new : ProtoService} :
    Unbroken (diffService old new) ↔
      KeyedDiff.Kept ProtoRpcMethod.name SameMethod old.methods new.methods :=
  diff_unbroken_iff (fun _ => breaking_breaking _ _) (fun _ => not_breaking_compatible _ _)
    fun _ _ => diffMethod_unbroken_iff

theorem diffMessage_unbroken_iff {old new : ParsedMessage} :
    Unbroken (diffMessage old new) ↔ KeyedDiff.Kept ParsedField.tag SameType old.fields new.fields :=
  diff_unbroken_iff (fun _ => breaking_breaking _ _) (fun _ => not_breaking_compatible _ _)
    fun _ _ => diffField_unbroken_iff

/-- Nothing breaking is reported iff everything is kept. -/
theorem diffFiles_unbroken_iff {old new : ProtoFile} :
    Unbroken (diffFiles old new) ↔ Extends old new := by
  have services : Unbroken (diffServices old new) ↔ KeyedDiff.Kept ProtoService.name
      (fun s s' => KeyedDiff.Kept ProtoRpcMethod.name SameMethod s.methods s'.methods)
        old.services new.services :=
    diff_unbroken_iff (fun _ => breaking_breaking _ _) (fun _ => not_breaking_compatible _ _)
      fun _ _ => diffService_unbroken_iff
  have messages : Unbroken (diffMessages old new) ↔ KeyedDiff.Kept ParsedMessage.name
      (fun m m' => KeyedDiff.Kept ParsedField.tag SameType m.fields m'.fields)
      old.messages new.messages :=
    diff_unbroken_iff (fun _ => breaking_breaking _ _) (fun _ => not_breaking_compatible _ _)
      fun _ _ => diffMessage_unbroken_iff
  have both : Unbroken (diffFiles old new) ↔
      Unbroken (diffServices old new) ∧ Unbroken (diffMessages old new) := by
    rw [Unbroken, diffFiles, List.forall_mem_append]
    exact Iff.rfl
  rw [both, services, messages]
  exact ⟨fun ⟨s, m⟩ => ⟨s, m⟩, fun ⟨s, m⟩ => ⟨s, m⟩⟩

theorem Extends.trans {old mid new : ProtoFile} (first : Extends old mid) (second : Extends mid new) :
    Extends old new where
  services := first.services.trans (fun _ _ _ kept kept' =>
    kept.trans (fun _ _ _ same same' => ⟨same'.1.trans same.1, same'.2.trans same.2⟩) kept')
      second.services
  messages := first.messages.trans (fun _ _ _ kept kept' =>
    kept.trans (fun _ _ _ same same' => same'.trans same) kept') second.messages

/-! ## Releases -/

theorem diffProtos_eq_ok {old new : Str} {changes : List ProtoChange} :
    diffProtos old new = .ok changes ↔ ∃ oldFile newFile, parseProto old = .ok oldFile ∧
      parseProto new = .ok newFile ∧ changes = diffFiles oldFile newFile := by
  rw [diffProtos, bind_eq_ok]
  constructor
  · rintro ⟨oldFile, readOld, rest⟩
    obtain ⟨newFile, readNew, whole⟩ := bind_eq_ok.1 rest
    exact ⟨oldFile, newFile, readOld, readNew, (Except.ok.inj whole).symm⟩
  · rintro ⟨oldFile, newFile, readOld, readNew, rfl⟩
    exact ⟨oldFile, readOld, bind_eq_ok.2 ⟨newFile, readNew, rfl⟩⟩

/-- The new text can be released behind the old one. -/
def Releasable (old new : Str) : Prop :=
  ∃ changes, diffProtos old new = .ok changes ∧ Unbroken changes

theorem releasable_iff {old new : Str} :
    Releasable old new ↔ ∃ oldFile newFile, parseProto old = .ok oldFile ∧
      parseProto new = .ok newFile ∧ Extends oldFile newFile := by
  constructor
  · rintro ⟨changes, reported, fine⟩
    obtain ⟨oldFile, newFile, readOld, readNew, rfl⟩ := diffProtos_eq_ok.1 reported
    exact ⟨oldFile, newFile, readOld, readNew, diffFiles_unbroken_iff.1 fine⟩
  · rintro ⟨oldFile, newFile, readOld, readNew, extended⟩
    exact ⟨_, diffProtos_eq_ok.2 ⟨oldFile, newFile, readOld, readNew, rfl⟩,
      diffFiles_unbroken_iff.2 extended⟩

theorem Releasable.trans {old mid new : Str} (first : Releasable old mid)
    (second : Releasable mid new) : Releasable old new := by
  obtain ⟨oldFile, midFile, readOld, readMid, extended⟩ := releasable_iff.1 first
  obtain ⟨midFile', newFile, readMid', readNew, extended'⟩ := releasable_iff.1 second
  rw [readMid] at readMid'
  cases readMid'
  exact releasable_iff.2 ⟨oldFile, newFile, readOld, readNew, extended.trans extended'⟩

/-- A text that is compared with the release before it only is compared with all of them. -/
theorem releasable_of_releases {old new : Str} (releases : Relation.TransGen Releasable old new) :
    Releasable old new := by
  induction releases with
  | single last => exact last
  | tail _ last ih => exact ih.trans last

/-- A message, the same with a field, and one with a service behind it. -/
theorem releasable_three_releases :
    Releasable "message A \x7b\n\x7d".toList "message A \x7b\n string b = 1;\n\x7d\nservice S \x7b\n\x7d".toList :=
  releasable_of_releases (.tail
    (.single (b := "message A \x7b\n string b = 1;\n\x7d".toList)
      ⟨[compatible "A.b".toList "field added (tag 1)".toList], by rfl, by decide⟩)
    ⟨[compatible "S".toList "service added".toList], by rfl, by decide⟩)

/-! ## The way back -/

/-- What two files differ in, with what stands on either side. -/
inductive Difference where
  | serviceRemoved (service : Str)
  | serviceAdded (service : Str)
  | methodRemoved (service method : Str)
  | methodAdded (service method : Str)
  | inputChanged (service method old new : Str)
  | outputChanged (service method old new : Str)
  | messageRemoved (message : Str)
  | messageAdded (message : Str)
  | fieldRemoved (message field : Str) (tag : UInt32)
  | fieldAdded (message field : Str) (tag : UInt32)
  | typeChanged (message oldField newField old new : Str)
  | fieldRenamed (message : Str) (tag : UInt32) (old new : Str)
  deriving DecidableEq

namespace Difference

/-- How it is reported. -/
def change : Difference → ProtoChange
  | serviceRemoved service => breaking service "service removed".toList
  | serviceAdded service => compatible service "service added".toList
  | methodRemoved service method => breaking (dotted service method) "RPC method removed".toList
  | methodAdded service method => compatible (dotted service method) "RPC method added".toList
  | inputChanged service method old new =>
    breaking (dotted service method) (turned "input type changed".toList old new)
  | outputChanged service method old new =>
    breaking (dotted service method) (turned "output type changed".toList old new)
  | messageRemoved message => breaking message "message removed".toList
  | messageAdded message => compatible message "message added".toList
  | fieldRemoved message field tag =>
    breaking (dotted message field) (tagged "field removed".toList tag)
  | fieldAdded message field tag =>
    compatible (dotted message field) (tagged "field added".toList tag)
  | typeChanged message oldField _ old new =>
    breaking (dotted message oldField) (turned "type changed".toList old new)
  | fieldRenamed message tag old new =>
    compatible (tagged message tag) (turned "field renamed".toList old new)

/-- The same difference seen from the other file. -/
def swap : Difference → Difference
  | serviceRemoved service => serviceAdded service
  | serviceAdded service => serviceRemoved service
  | methodRemoved service method => methodAdded service method
  | methodAdded service method => methodRemoved service method
  | inputChanged service method old new => inputChanged service method new old
  | outputChanged service method old new => outputChanged service method new old
  | messageRemoved message => messageAdded message
  | messageAdded message => messageRemoved message
  | fieldRemoved message field tag => fieldAdded message field tag
  | fieldAdded message field tag => fieldRemoved message field tag
  | typeChanged message oldField newField old new => typeChanged message newField oldField new old
  | fieldRenamed message tag old new => fieldRenamed message tag new old

@[simp] theorem swap_swap (d : Difference) : d.swap.swap = d := by
  cases d <;> rfl

theorem eq_iff_swap {d : Difference} (e : Difference) : d = e ↔ d.swap = e.swap := by
  constructor
  · rintro rfl
    rfl
  · intro same
    rw [← d.swap_swap, same, swap_swap]

end Difference

open Difference

def methodDifferences (service : Str) (old new : ProtoRpcMethod) : List Difference :=
  (if new.inputType = old.inputType then []
    else [inputChanged service old.name old.inputType new.inputType]) ++
  (if new.outputType = old.outputType then []
    else [outputChanged service old.name old.outputType new.outputType])

def serviceDifferences (old new : ProtoService) : List Difference :=
  diff ProtoRpcMethod.name (fun method => methodRemoved old.name method.name)
    (methodDifferences old.name) (fun method => methodAdded new.name method.name)
    old.methods new.methods

def fieldDifferences (message : Str) (old new : ParsedField) : List Difference :=
  (if new.protoType = old.protoType then []
    else [typeChanged message old.name new.name old.protoType new.protoType]) ++
  (if new.name = old.name then [] else [fieldRenamed message old.tag old.name new.name])

def messageDifferences (old new : ParsedMessage) : List Difference :=
  diff ParsedField.tag (fun field => fieldRemoved old.name field.name field.tag)
    (fieldDifferences old.name) (fun field => fieldAdded new.name field.name field.tag)
    old.fields new.fields

def differences (old new : ProtoFile) : List Difference :=
  diff ProtoService.name (fun service => serviceRemoved service.name) serviceDifferences
    (fun service => serviceAdded service.name) old.services new.services ++
  diff ParsedMessage.name (fun message => messageRemoved message.name) messageDifferences
    (fun message => messageAdded message.name) old.messages new.messages

theorem map_unless {γ δ : Type} (f : γ → δ) {p : Prop} [Decidable p] {x : γ} :
    (if p then [] else [x]).map f = if p then [] else [f x] := by
  split <;> rfl

theorem map_change_methodDifferences (service : Str) (old new : ProtoRpcMethod) :
    (methodDifferences service old new).map change = diffMethod service old new := by
  rw [methodDifferences, List.map_append, map_unless, map_unless]
  rfl

theorem map_change_fieldDifferences (message : Str) (old new : ParsedField) :
    (fieldDifferences message old new).map change = diffField message old new := by
  rw [fieldDifferences, List.map_append, map_unless, map_unless]
  rfl

theorem map_change_serviceDifferences (old new : ProtoService) :
    (serviceDifferences old new).map change = diffService old new := by
  rw [serviceDifferences, map_diff]
  exact diff_congr fun a _ b _ _ => map_change_methodDifferences old.name a b

theorem map_change_messageDifferences (old new : ParsedMessage) :
    (messageDifferences old new).map change = diffMessage old new := by
  rw [messageDifferences, map_diff]
  exact diff_congr fun a _ b _ _ => map_change_fieldDifferences old.name a b

/-- The report is that of the differences. -/
theorem diffFiles_eq (old new : ProtoFile) :
    diffFiles old new = (differences old new).map change := by
  rw [diffFiles, differences, List.map_append, map_diff, map_diff]
  congr 1
  · exact diff_congr fun a _ b _ _ => (map_change_serviceDifferences a b).symm
  · exact diff_congr fun a _ b _ _ => (map_change_messageDifferences a b).symm

/-- Nothing in the file has the name or number of something else. -/
structure ProtoFile.Distinct (file : ProtoFile) : Prop where
  services : (file.services.map ProtoService.name).Nodup
  methods : ∀ s ∈ file.services, (s.methods.map ProtoRpcMethod.name).Nodup
  messages : (file.messages.map ParsedMessage.name).Nodup
  fields : ∀ m ∈ file.messages, (m.fields.map ParsedField.tag).Nodup

theorem mem_unless {γ : Type} {p : Prop} [Decidable p] {x d : γ} :
    d ∈ (if p then [] else [x]) ↔ ¬ p ∧ d = x := by
  by_cases holds : p
  · simp [holds]
  · simp [holds]

theorem mem_methodDifferences_swap {service : Str} {old new : ProtoRpcMethod}
    (same : new.name = old.name) (d : Difference) :
    d ∈ methodDifferences service old new ↔ d.swap ∈ methodDifferences service new old := by
  rw [methodDifferences, methodDifferences, List.mem_append, List.mem_append, mem_unless, mem_unless,
    mem_unless, mem_unless, same]
  apply or_congr
  · exact and_congr (not_congr eq_comm) (eq_iff_swap _)
  · exact and_congr (not_congr eq_comm) (eq_iff_swap _)

theorem mem_fieldDifferences_swap {message : Str} {old new : ParsedField} (same : new.tag = old.tag)
    (d : Difference) :
    d ∈ fieldDifferences message old new ↔ d.swap ∈ fieldDifferences message new old := by
  rw [fieldDifferences, fieldDifferences, List.mem_append, List.mem_append, mem_unless, mem_unless,
    mem_unless, mem_unless, same]
  apply or_congr
  · exact and_congr (not_congr eq_comm) (eq_iff_swap _)
  · exact and_congr (not_congr eq_comm) (eq_iff_swap _)

theorem mem_serviceDifferences_swap {old new : ProtoService} (same : new.name = old.name)
    (distinct : (old.methods.map ProtoRpcMethod.name).Nodup)
    (distinct' : (new.methods.map ProtoRpcMethod.name).Nodup) (d : Difference) :
    d ∈ serviceDifferences old new ↔ d.swap ∈ serviceDifferences new old := by
  rw [serviceDifferences, serviceDifferences, same]
  exact mem_diff_swap swap distinct distinct' (fun _ _ => eq_iff_swap _) (fun _ _ => eq_iff_swap _)
    fun _ _ _ _ agree c => mem_methodDifferences_swap agree c

theorem mem_messageDifferences_swap {old new : ParsedMessage} (same : new.name = old.name)
    (distinct : (old.fields.map ParsedField.tag).Nodup)
    (distinct' : (new.fields.map ParsedField.tag).Nodup) (d : Difference) :
    d ∈ messageDifferences old new ↔ d.swap ∈ messageDifferences new old := by
  rw [messageDifferences, messageDifferences, same]
  exact mem_diff_swap swap distinct distinct' (fun _ _ => eq_iff_swap _) (fun _ _ => eq_iff_swap _)
    fun _ _ _ _ agree c => mem_fieldDifferences_swap agree c

/-- A difference of two files is one of them the other way round, with the sides swapped. -/
theorem mem_differences_swap {old new : ProtoFile} (distinct : old.Distinct) (distinct' : new.Distinct)
    (d : Difference) : d ∈ differences old new ↔ d.swap ∈ differences new old := by
  rw [differences, differences, List.mem_append, List.mem_append]
  apply or_congr
  · exact mem_diff_swap swap distinct.services distinct'.services (fun _ _ => eq_iff_swap _)
      (fun _ _ => eq_iff_swap _) fun s mem s' mem' agree c =>
        mem_serviceDifferences_swap agree (distinct.methods s mem) (distinct'.methods s' mem') c
  · exact mem_diff_swap swap distinct.messages distinct'.messages (fun _ _ => eq_iff_swap _)
      (fun _ _ => eq_iff_swap _) fun m mem m' mem' agree c =>
        mem_messageDifferences_swap agree (distinct.fields m mem) (distinct'.fields m' mem') c

/-- The reports of a comparison and of the one the other way round say the same. -/
theorem diffFiles_back {old new : ProtoFile} (distinct : old.Distinct) (distinct' : new.Distinct) :
    diffFiles old new = (differences old new).map change ∧
      diffFiles new old = (differences new old).map change ∧
      ∀ d, d ∈ differences old new ↔ d.swap ∈ differences new old :=
  ⟨diffFiles_eq old new, diffFiles_eq new old, mem_differences_swap distinct distinct'⟩

/-- A service with one method. -/
def usersFile (method : Str) : ProtoFile where
  syntaxVersion := "proto3".toList
  package := "users".toList
  imports := []
  services :=
    [{ name := "Users".toList
       methods :=
        [{ name := method
           inputType := "User".toList
           outputType := "User".toList
           comment := none }] }]
  messages := []
  enums := []

theorem distinct_usersFile (method : Str) : (usersFile method).Distinct where
  services := List.nodup_singleton _
  methods := List.forall_mem_singleton.2 (List.nodup_singleton _)
  messages := List.nodup_nil
  fields := List.forall_mem_nil _

/-- A method that has another name instead went and came. -/
theorem diffFiles_back_usersFile :
    methodRemoved "Users".toList "GetUser".toList ∈
        differences (usersFile "GetUser".toList) (usersFile "FindUser".toList) ↔
      methodAdded "Users".toList "GetUser".toList ∈
        differences (usersFile "FindUser".toList) (usersFile "GetUser".toList) :=
  (diffFiles_back (distinct_usersFile _) (distinct_usersFile _)).2.2 _

end Typeway.Grpc
