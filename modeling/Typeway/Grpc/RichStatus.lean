import Typeway.Base.Serde
import Typeway.Grpc.Delivery

/-!
# Error details

`error_details.rs`: the typed payloads of an error status and their JSON texts. What a client
reads from the text of a status is the status.
-/

section

open Serde

namespace Typeway.Grpc

open Typeway.Core Json

/-! ## Payloads -/

structure FieldViolation where
  field : Str
  description : Str

structure BadRequest where
  fieldViolations : List FieldViolation

structure RetryInfo where
  retryDelaySeconds : UInt64
  retryDelayNanos : UInt32

structure DebugInfo where
  stackEntries : List Str
  detail : Str

structure ErrorInfo where
  reason : Str
  domain : Str
  metadata : HashMap Str

structure QuotaViolation where
  subject : Str
  description : Str

structure QuotaFailure where
  violations : List QuotaViolation

structure PreconditionViolation where
  violationType : Str
  subject : Str
  description : Str

structure PreconditionFailure where
  violations : List PreconditionViolation

structure ResourceInfo where
  resourceType : Str
  resourceName : Str
  owner : Str
  description : Str

structure HelpLink where
  description : Str
  url : Str

structure Help where
  links : List HelpLink

structure LocalizedMessage where
  locale : Str
  message : Str

inductive ErrorDetail where
  | badRequest (detail : BadRequest)
  | retryInfo (detail : RetryInfo)
  | debugInfo (detail : DebugInfo)
  | errorInfo (detail : ErrorInfo)
  | quotaFailure (detail : QuotaFailure)
  | preconditionFailure (detail : PreconditionFailure)
  | resourceInfo (detail : ResourceInfo)
  | help (detail : Help)
  | localizedMessage (detail : LocalizedMessage)

/-! ## Their records -/

def FieldViolation.record : Record FieldViolation :=
  ((Record.ofField (always "field" text)).pair (.ofField (always "description" text))).as
    (fun (field, description) => { field, description }) fun v => (v.field, v.description)

def BadRequest.record : Record BadRequest :=
  (Record.ofField (always "field_violations" (list FieldViolation.record.codec))).as
    BadRequest.mk BadRequest.fieldViolations

def RetryInfo.record : Record RetryInfo :=
  ((Record.ofField (always "retry_delay_seconds" u64)).pair
    (.ofField (always "retry_delay_nanos" u32))).as
      (fun (retryDelaySeconds, retryDelayNanos) => { retryDelaySeconds, retryDelayNanos })
      fun i => (i.retryDelaySeconds, i.retryDelayNanos)

def DebugInfo.record : Record DebugInfo :=
  ((Record.ofField (always "stack_entries" (list text))).pair
    (.ofField (always "detail" text))).as
      (fun (stackEntries, detail) => { stackEntries, detail }) fun i => (i.stackEntries, i.detail)

def ErrorInfo.record : Record ErrorInfo :=
  ((Record.ofField (always "reason" text)).pair <|
    (Record.ofField (always "domain" text)).pair <|
    .ofField (blankable "metadata" (hashMap text) (fun m => m.1.isEmpty) ⟨[], List.nodup_nil⟩)).as
      (fun (reason, domain, metadata) => { reason, domain, metadata })
      fun i => (i.reason, i.domain, i.metadata)

def QuotaViolation.record : Record QuotaViolation :=
  ((Record.ofField (always "subject" text)).pair (.ofField (always "description" text))).as
    (fun (subject, description) => { subject, description }) fun v => (v.subject, v.description)

def QuotaFailure.record : Record QuotaFailure :=
  (Record.ofField (always "violations" (list QuotaViolation.record.codec))).as
    QuotaFailure.mk QuotaFailure.violations

def PreconditionViolation.record : Record PreconditionViolation :=
  ((Record.ofField (always "type" text)).pair <|
    (Record.ofField (always "subject" text)).pair <|
    .ofField (always "description" text)).as
      (fun (violationType, subject, description) => { violationType, subject, description })
      fun v => (v.violationType, v.subject, v.description)

def PreconditionFailure.record : Record PreconditionFailure :=
  (Record.ofField (always "violations" (list PreconditionViolation.record.codec))).as
    PreconditionFailure.mk PreconditionFailure.violations

def ResourceInfo.record : Record ResourceInfo :=
  ((Record.ofField (always "resource_type" text)).pair <|
    (Record.ofField (always "resource_name" text)).pair <|
    (Record.ofField (always "owner" text)).pair <|
    .ofField (always "description" text)).as
      (fun (resourceType, resourceName, owner, description) =>
        { resourceType, resourceName, owner, description })
      fun i => (i.resourceType, i.resourceName, i.owner, i.description)

def HelpLink.record : Record HelpLink :=
  ((Record.ofField (always "description" text)).pair (.ofField (always "url" text))).as
    (fun (description, url) => { description, url }) fun l => (l.description, l.url)

def Help.record : Record Help :=
  (Record.ofField (always "links" (list HelpLink.record.codec))).as Help.mk Help.links

def LocalizedMessage.record : Record LocalizedMessage :=
  ((Record.ofField (always "locale" text)).pair (.ofField (always "message" text))).as
    (fun (locale, message) => { locale, message }) fun m => (m.locale, m.message)

namespace ErrorDetail

inductive Kind where
  | badRequest
  | retryInfo
  | debugInfo
  | errorInfo
  | quotaFailure
  | preconditionFailure
  | resourceInfo
  | help
  | localizedMessage
  deriving DecidableEq

def Kind.all : List Kind :=
  [badRequest, retryInfo, debugInfo, errorInfo, quotaFailure, preconditionFailure, resourceInfo,
    help, localizedMessage]

def googleRpc (name : String) : Str :=
  "type.googleapis.com/google.rpc.".toList ++ name.toList

/-- The value of `@type`. -/
def Kind.url : Kind → Str
  | badRequest => googleRpc "BadRequest"
  | retryInfo => googleRpc "RetryInfo"
  | debugInfo => googleRpc "DebugInfo"
  | errorInfo => googleRpc "ErrorInfo"
  | quotaFailure => googleRpc "QuotaFailure"
  | preconditionFailure => googleRpc "PreconditionFailure"
  | resourceInfo => googleRpc "ResourceInfo"
  | help => googleRpc "Help"
  | localizedMessage => googleRpc "LocalizedMessage"

def Kind.ofUrl (url : Str) : Option Kind :=
  all.find? fun kind => kind.url = url

def kind : ErrorDetail → Kind
  | badRequest _ => .badRequest
  | retryInfo _ => .retryInfo
  | debugInfo _ => .debugInfo
  | errorInfo _ => .errorInfo
  | quotaFailure _ => .quotaFailure
  | preconditionFailure _ => .preconditionFailure
  | resourceInfo _ => .resourceInfo
  | help _ => .help
  | localizedMessage _ => .localizedMessage

def members : ErrorDetail → Members
  | badRequest detail => BadRequest.record.ser detail
  | retryInfo detail => RetryInfo.record.ser detail
  | debugInfo detail => DebugInfo.record.ser detail
  | errorInfo detail => ErrorInfo.record.ser detail
  | quotaFailure detail => QuotaFailure.record.ser detail
  | preconditionFailure detail => PreconditionFailure.record.ser detail
  | resourceInfo detail => ResourceInfo.record.ser detail
  | help detail => Help.record.ser detail
  | localizedMessage detail => LocalizedMessage.record.ser detail

def ofMembers : Kind → Members → Option ErrorDetail
  | .badRequest, members => (BadRequest.record.de members).map badRequest
  | .retryInfo, members => (RetryInfo.record.de members).map retryInfo
  | .debugInfo, members => (DebugInfo.record.de members).map debugInfo
  | .errorInfo, members => (ErrorInfo.record.de members).map errorInfo
  | .quotaFailure, members => (QuotaFailure.record.de members).map quotaFailure
  | .preconditionFailure, members => (PreconditionFailure.record.de members).map preconditionFailure
  | .resourceInfo, members => (ResourceInfo.record.de members).map resourceInfo
  | .help, members => (Help.record.de members).map help
  | .localizedMessage, members => (LocalizedMessage.record.de members).map localizedMessage

/-- `#[serde(tag = "@type")]` -/
def codec : Codec ErrorDetail :=
  Serde.tagged "@type".toList (fun detail => detail.kind.url) members fun url members =>
    (Kind.ofUrl url).bind fun kind => ofMembers kind members

end ErrorDetail

/-! ## The status -/

namespace RichGrpcStatus

def record : Record (RichGrpcStatus ErrorDetail) :=
  ((Record.ofField (always "code" i32)).pair <|
    (Record.ofField (always "message" text)).pair <|
    .ofField (blankable "details" (list ErrorDetail.codec) List.isEmpty [])).as
      (fun (code, message, details) => { code, message, details })
      fun s => (s.code, s.message, s.details)

def new (code : GrpcCode) (message : Str) : RichGrpcStatus ErrorDetail where
  code := code.asI32
  message := message
  details := []

/-- The `with_` functions. -/
def withDetail (status : RichGrpcStatus ErrorDetail) (detail : ErrorDetail) :
    RichGrpcStatus ErrorDetail :=
  { status with details := status.details ++ [detail] }

/-- `serde_json::to_vec(self)` -/
def toJsonBytes (toVec : Value → List UInt8) (status : RichGrpcStatus ErrorDetail) : List UInt8 :=
  toVec (record.codec.ser status)

end RichGrpcStatus

/-- `serde_json::from_slice(body).ok()` -/
def parseRichStatus (fromSlice : List UInt8 → Option Value) (body : List UInt8) :
    Option (RichGrpcStatus ErrorDetail) :=
  (fromSlice body).bind RichGrpcStatus.record.codec.de

/-! ## Round trips -/

theorem FieldViolation.returns (v : FieldViolation) : record.RoundTrips v := by
  rw [record, Record.returns_as (fun _ => rfl) (fun _ => rfl), Record.returns_pair (by decide)]
  simp

theorem BadRequest.returns (detail : BadRequest) : record.RoundTrips detail := by
  rw [record, Record.returns_as (fun _ => rfl) (fun _ => rfl), Record.returns_ofField,
    survives_always, returns_list]
  exact fun v _ => v.returns

theorem RetryInfo.returns (detail : RetryInfo) : record.RoundTrips detail := by
  rw [record, Record.returns_as (fun _ => rfl) (fun _ => rfl), Record.returns_pair (by decide)]
  simp

theorem DebugInfo.returns (detail : DebugInfo) : record.RoundTrips detail := by
  rw [record, Record.returns_as (fun _ => rfl) (fun _ => rfl), Record.returns_pair (by decide)]
  simp

theorem ErrorInfo.returns (detail : ErrorInfo) : record.RoundTrips detail := by
  rw [record, Record.returns_as (fun _ => rfl) (fun _ => rfl), Record.returns_pair (by decide),
    Record.returns_pair (by decide)]
  have metadata : (blankable "metadata" (hashMap text) (fun m => m.1.isEmpty)
      ⟨[], List.nodup_nil⟩).Survives detail.metadata := by
    apply survives_blankable
    · intro empty
      exact Subtype.ext (List.isEmpty_iff.1 empty).symm
    · exact returns_hashMap fun e _ => returns_text e.2
  simpa using metadata

theorem QuotaViolation.returns (v : QuotaViolation) : record.RoundTrips v := by
  rw [record, Record.returns_as (fun _ => rfl) (fun _ => rfl), Record.returns_pair (by decide)]
  simp

theorem QuotaFailure.returns (detail : QuotaFailure) : record.RoundTrips detail := by
  rw [record, Record.returns_as (fun _ => rfl) (fun _ => rfl), Record.returns_ofField,
    survives_always, returns_list]
  exact fun v _ => v.returns

theorem PreconditionViolation.returns (v : PreconditionViolation) : record.RoundTrips v := by
  rw [record, Record.returns_as (fun _ => rfl) (fun _ => rfl), Record.returns_pair (by decide),
    Record.returns_pair (by decide)]
  simp

theorem PreconditionFailure.returns (detail : PreconditionFailure) : record.RoundTrips detail := by
  rw [record, Record.returns_as (fun _ => rfl) (fun _ => rfl), Record.returns_ofField,
    survives_always, returns_list]
  exact fun v _ => v.returns

theorem ResourceInfo.returns (detail : ResourceInfo) : record.RoundTrips detail := by
  rw [record, Record.returns_as (fun _ => rfl) (fun _ => rfl), Record.returns_pair (by decide),
    Record.returns_pair (by decide), Record.returns_pair (by decide)]
  simp

theorem HelpLink.returns (l : HelpLink) : record.RoundTrips l := by
  rw [record, Record.returns_as (fun _ => rfl) (fun _ => rfl), Record.returns_pair (by decide)]
  simp

theorem Help.returns (detail : Help) : record.RoundTrips detail := by
  rw [record, Record.returns_as (fun _ => rfl) (fun _ => rfl), Record.returns_ofField,
    survives_always, returns_list]
  exact fun l _ => l.returns

theorem LocalizedMessage.returns (detail : LocalizedMessage) : record.RoundTrips detail := by
  rw [record, Record.returns_as (fun _ => rfl) (fun _ => rfl), Record.returns_pair (by decide)]
  simp

namespace ErrorDetail

theorem googleRpc_inj {name other : String} (same : googleRpc name = googleRpc other) :
    name = other :=
  String.toList_inj.1 (List.append_cancel_left same)

theorem Kind.url_inj {kind other : Kind} (same : kind.url = other.url) : kind = other := by
  cases kind <;> cases other <;> first | rfl | exact absurd (googleRpc_inj same) (by decide)

theorem Kind.mem_all (kind : Kind) : kind ∈ all := by
  cases kind <;> decide

theorem Kind.ofUrl_url (kind : Kind) : ofUrl kind.url = some kind := by
  rw [ofUrl]
  cases found : all.find? fun other => other.url = kind.url with
  | none => exact absurd (List.find?_eq_none.1 found kind kind.mem_all) (by simp)
  | some other =>
    have same := List.find?_some found
    rw [url_inj (of_decide_eq_true same)]

/-- The name of no payload is taken for a member of it. -/
theorem members_apart (detail : ErrorDetail) : ∀ m ∈ detail.members, m.1 ≠ "@type".toList := by
  have apart {α : Type} (r : Record α) (names : ∀ n ∈ r.names, n ≠ "@type".toList) (a : α) :
      ∀ m ∈ r.ser a, m.1 ≠ "@type".toList :=
    fun m mem => names m.1 (r.own a m mem)
  cases detail with
  | badRequest detail => exact apart BadRequest.record (by decide) detail
  | retryInfo detail => exact apart RetryInfo.record (by decide) detail
  | debugInfo detail => exact apart DebugInfo.record (by decide) detail
  | errorInfo detail => exact apart ErrorInfo.record (by decide) detail
  | quotaFailure detail => exact apart QuotaFailure.record (by decide) detail
  | preconditionFailure detail => exact apart PreconditionFailure.record (by decide) detail
  | resourceInfo detail => exact apart ResourceInfo.record (by decide) detail
  | help detail => exact apart Help.record (by decide) detail
  | localizedMessage detail => exact apart LocalizedMessage.record (by decide) detail

theorem ofMembers_members (detail : ErrorDetail) :
    ofMembers detail.kind detail.members = some detail := by
  have made {α : Type} {r : Record α} {a : α} (back : r.RoundTrips a) (make : α → ErrorDetail) :
      (r.de (r.ser a)).map make = some (make a) := by
    rw [show r.de (r.ser a) = some a from back]
    rfl
  cases detail with
  | badRequest detail => exact made detail.returns badRequest
  | retryInfo detail => exact made detail.returns retryInfo
  | debugInfo detail => exact made detail.returns debugInfo
  | errorInfo detail => exact made detail.returns errorInfo
  | quotaFailure detail => exact made detail.returns quotaFailure
  | preconditionFailure detail => exact made detail.returns preconditionFailure
  | resourceInfo detail => exact made detail.returns resourceInfo
  | help detail => exact made detail.returns help
  | localizedMessage detail => exact made detail.returns localizedMessage

theorem returns (detail : ErrorDetail) : codec.RoundTrips detail := by
  rw [codec, returns_tagged detail.members_apart, Kind.ofUrl_url, Option.bind_some]
  exact detail.ofMembers_members

end ErrorDetail

/-- Any status whose code is an `i32` comes back. -/
theorem RichGrpcStatus.returns {status : RichGrpcStatus ErrorDetail}
    (code : -2 ^ 31 ≤ status.code ∧ status.code < 2 ^ 31) : record.codec.RoundTrips status := by
  rw [Record.returns_codec, record, Record.returns_as (fun _ => rfl) (fun _ => rfl),
    Record.returns_pair (by decide), Record.returns_pair (by decide), Record.returns_ofField,
    Record.returns_ofField, Record.returns_ofField, survives_always, survives_always, returns_i32]
  have details : (blankable "details" (list ErrorDetail.codec) List.isEmpty []).Survives
      status.details := by
    apply survives_blankable
    · exact fun empty => (List.isEmpty_iff.1 empty).symm
    · rw [returns_list]
      exact fun detail _ => detail.returns
  exact ⟨code, returns_text _, details⟩

/-- A status is read from its text, with all its details. -/
theorem parseRichStatus_toJsonBytes {fromSlice : List UInt8 → Option Value}
    {toVec : Value → List UInt8} {status : RichGrpcStatus ErrorDetail}
    (reads : fromSlice (status.toJsonBytes toVec) = some (RichGrpcStatus.record.codec.ser status))
    (code : -2 ^ 31 ≤ status.code ∧ status.code < 2 ^ 31) :
    parseRichStatus fromSlice (status.toJsonBytes toVec) = some status := by
  rw [parseRichStatus, reads, Option.bind_some]
  exact RichGrpcStatus.returns code

end Typeway.Grpc

end
