/-
  OpenU60.Esim.Download — one profile download on an open card session
  (`zte-agent/src/esim_download.rs`, `euicc/src/download.rs`).

  `steps` and `download` are dialogues: the environment answers every card command, every
  server call, every look at the control channel and every reading of the clock. Durations
  are milliseconds. What the `euicc` crate computes from the server's data alone is a
  `Codec`.
-/

import OpenU60.Lib.Dialogue
import OpenU60.Lib.Json

namespace OpenU60.Esim

open OpenU60.Lib
open OpenU60.Lib.Dialogue (Task Exchange)

inductive DownloadCtl where
  | accept
  | decline
  | cancel
  | previewTimeout
  deriving DecidableEq

inductive CancelSessionReason where
  | endUserRejection
  | postponed
  | timeout
  | pprNotAllowed
  | metadataMismatch
  | loadBppExecutionError
  | undefined
  deriving DecidableEq

def CancelSessionReason.code : CancelSessionReason → UInt8
  | .endUserRejection => 0
  | .postponed => 1
  | .timeout => 2
  | .pprNotAllowed => 3
  | .metadataMismatch => 4
  | .loadBppExecutionError => 5
  | .undefined => 127

def hexDigit (n : Nat) : Char := if n < 10 then Char.ofNat ('0'.toNat + n) else Char.ofNat ('A'.toNat + n - 10)

/-- `{:02X}`. -/
def hex2 (b : UInt8) : String := String.ofList [hexDigit (b.toNat / 16), hexDigit (b.toNat % 16)]

/-- `euicc::Error`. -/
inductive EuiccError where
  | transport (m : String)
  | status (sw1 sw2 : UInt8)
  | malformed (what : String)
  | argument (what : String)
  deriving DecidableEq

def EuiccError.text : EuiccError → String
  | .transport m => m
  | .status sw1 sw2 => "card status " ++ hex2 sw1 ++ hex2 sw2
  | .malformed what => "unexpected card response (" ++ what ++ ")"
  | .argument what => "invalid argument (" ++ what ++ ")"

structure Es9pStatus where
  subjectCode : String
  reasonCode : String
  subjectIdentifier : String
  message : String
  transportError : Option String
  deriving DecidableEq

/-- The message of an answer other than 2xx. -/
def httpStatusError : String := "HTTP status code error"

def es9pError (op : String) (e : Es9pStatus) : String :=
  if e.message.isEmpty then op ++ ": subject code " ++ e.subjectCode ++ ", reason code " ++ e.reasonCode
  else
    match e.transportError with
    | some cause => op ++ ": " ++ e.message ++ " (" ++ cause ++ ")"
    | none =>
      if e.message = httpStatusError then op ++ ": " ++ e.message ++ " (" ++ e.subjectIdentifier ++ ")"
      else op ++ ": " ++ e.message

structure AuthenticateServerParam where
  b64ServerSigned1 : String
  b64ServerSignature1 : String
  b64EuiccCiPkidToBeUsed : String
  b64ServerCertificate : String

structure PrepareDownloadParam where
  b64ProfileMetadata : String
  b64SmdpSigned2 : String
  b64SmdpSignature2 : String
  b64SmdpCertificate : String

structure ProfileMetadata where
  iccid : String
  serviceProviderName : Option String
  profileName : Option String
  iconType : Option String
  icon : Option String
  profileClass : Option String

structure LoadBppResult where
  seqNumber : Nat
  iccid : Option String
  bppCommandId : Option UInt8
  errorReason : Option UInt8

def LoadBppResult.isSuccess (r : LoadBppResult) : Bool := r.bppCommandId.isNone && r.errorReason.isNone

def bppCommandIdStr (id : UInt8) : String :=
  match id.toNat with
  | 0 => "initialise_secure_channel"
  | 1 => "configure_isdp"
  | 2 => "store_metadata"
  | 3 => "store_metadata2"
  | 4 => "replace_session_keys"
  | 5 => "load_profile_elements"
  | 0xFF => "unknown"
  | _ => "(no_str_available)"

def errorReasonStr (reason : UInt8) : String :=
  match reason.toNat with
  | 1 => "incorrect_input_values"
  | 2 => "invalid_signature"
  | 3 => "invalid_transaction_id"
  | 4 => "unsupported_crt_values"
  | 5 => "unsupported_remote_operation_type"
  | 6 => "unsupported_profile_class"
  | 7 => "scp03t_structure_error"
  | 8 => "scp03t_security_error"
  | 9 => "install_failed_due_to_iccid_already_exists_on_euicc"
  | 10 => "install_failed_due_to_insufficient_memory_for_profile"
  | 11 => "install_failed_due_to_interruption"
  | 12 => "install_failed_due_to_pe_processing_error"
  | 13 => "install_failed_due_to_data_mismatch"
  | 14 => "test_profile_install_failed_due_to_invalid_naa_key"
  | 15 => "ppr_not_allowed"
  | 127 => "install_failed_due_to_unknown_error"
  | 0xFF => "unknown"
  | _ => "(no_str_available)"

structure ActivationCode where
  smdp : String
  matchingId : String
  confirmationRequired : Bool

/-- `b64::decode`, `der::find` (the contents) and `es8p::parse_metadata`. -/
structure Codec where
  decode : String → List UInt8
  find : List UInt8 → Nat → Option (List UInt8)
  parseMetadata : String → Except EuiccError ProfileMetadata

/-! ## The environment -/

/-- The progress steps, by lpac's names. -/
inductive Step where
  | getEuiccChallengeAndInfo
  | initiateAuthentication
  | authenticateServer
  | authenticateClient
  | metadataParse
  | preview
  | prepareDownload
  | getBoundProfilePackage
  | loadBoundProfilePackage
  | es10bCancelSession
  | es9pCancelSession
  deriving DecidableEq

def Step.text : Step → String
  | .getEuiccChallengeAndInfo => "es10b_get_euicc_challenge_and_info"
  | .initiateAuthentication => "es9p_initiate_authentication"
  | .authenticateServer => "es10b_authenticate_server"
  | .authenticateClient => "es9p_authenticate_client"
  | .metadataParse => "es8p_metadata_parse"
  | .preview => "preview"
  | .prepareDownload => "es10b_prepare_download"
  | .getBoundProfilePackage => "es9p_get_bound_profile_package"
  | .loadBoundProfilePackage => "es10b_load_bound_profile_package"
  | .es10bCancelSession => "es10b_cancel_session"
  | .es9pCancelSession => "es9p_cancel_session"

/-- What a download asks for: progress reports, the control channel, the time left, card
    commands and server calls (with their time limit). -/
inductive Ask where
  | progress (step : Step) (data : Json)
  | cancelled
  | recvTimeout (limit : Nat)
  | left
  | getEuiccChallenge
  | getEuiccInfo1
  | initiateAuthentication (limit : Nat) (smdp challenge info1 : String)
  | authenticateServer (param : AuthenticateServerParam) (matchingId : String)
  | authenticateClient (limit : Nat) (smdp tid response : String)
  | prepareDownload (param : PrepareDownloadParam) (tid : List UInt8) (code : Option String)
  | getBoundProfilePackage (limit : Nat) (smdp tid prepared : String)
  | loadBoundProfilePackage (package : String)
  | cancelSession (tid : List UInt8) (reason : CancelSessionReason)
  | es9pCancelSession (limit : Nat) (smdp tid response : String)

@[reducible] def Ask.Answer : Ask → Type
  | .progress _ _ => Unit
  | .cancelled => Bool
  | .recvTimeout _ => Option DownloadCtl
  | .left => Nat
  | .getEuiccChallenge => Except EuiccError String
  | .getEuiccInfo1 => Except EuiccError String
  | .initiateAuthentication _ _ _ _ => Except Es9pStatus (String × AuthenticateServerParam)
  | .authenticateServer _ _ => Except EuiccError (List UInt8 × String)
  | .authenticateClient _ _ _ _ => Except Es9pStatus PrepareDownloadParam
  | .prepareDownload _ _ _ => Except EuiccError String
  | .getBoundProfilePackage _ _ _ _ => Except Es9pStatus String
  | .loadBoundProfilePackage _ => Except EuiccError LoadBppResult
  | .cancelSession _ _ => Except EuiccError String
  | .es9pCancelSession _ _ _ _ => Except Es9pStatus Unit

abbrev Procedure := Dialogue Ask Ask.Answer

def Ask.put (q : Ask) : Procedure q.Answer := Dialogue.put q

/-! ## Cancelling the card session -/

/-- The length bytes of an element (`der::Node::encode_into`). -/
def derLength (n : Nat) : List UInt8 :=
  if n < 0x80 then [.ofNat n]
  else
    let bytes := [n / 2 ^ 24, n / 2 ^ 16, n / 2 ^ 8, n].map fun m => UInt8.ofNat (m % 2 ^ 8)
    let digits := bytes.dropWhile (· == 0)
    .ofNat (0x80 + digits.length) :: digits

def derNode (tag : List UInt8) (value : List UInt8) : List UInt8 := tag ++ derLength value.length ++ value

def cancelSessionRequest (tid : List UInt8) (reason : CancelSessionReason) : List UInt8 :=
  derNode [0xBF, 0x41] (derNode [0x80] tid ++ derNode [0x81] [reason.code])

def requestBuffer : Nat := 255

/-- `Euicc::cancel_session`: an id the request cannot carry is refused before the card is
    asked. -/
def cancelSession (tid : List UInt8) (reason : CancelSessionReason) : Procedure (Except EuiccError String) :=
  if tid.isEmpty then pure (.error (.argument "empty transaction id"))
  else if requestBuffer < (cancelSessionRequest tid reason).length then
    pure (.error (.argument "transaction id too long"))
  else Ask.put (.cancelSession tid reason)

/-! ## Why a download stops -/

/-- The message, the reason to cancel the card session with, and whether the server is told. -/
structure Stop where
  message : String
  reason : Option CancelSessionReason
  notifyServer : Bool

namespace Stop

def new (message : String) (reason : Option CancelSessionReason) : Stop := ⟨message, reason, true⟩

def fail (step : Step) (detail : String) : Stop := new (step.text ++ ": " ++ detail) (some .undefined)

def cardReason : EuiccError → CancelSessionReason
  | .transport _ => .timeout
  | _ => .undefined

def card (step : Step) (e : EuiccError) : Stop := new (step.text ++ ": " ++ e.text) (some (cardReason e))

def server (step : Step) (e : Es9pStatus) : Stop :=
  let message := es9pError step.text e
  if e.transportError.isSome || e.message == httpStatusError then new message (some .timeout)
  else if e.subjectCode != "0.0.0" then ⟨message, some .undefined, false⟩
  else new message (some .undefined)

def user : DownloadCtl → Stop
  | .decline => new "cancelled: declined" (some .endUserRejection)
  | .previewTimeout => new "cancelled: not confirmed in time" (some .timeout)
  | _ => new "cancelled" (some .postponed)

end Stop

/-! ## The procedure -/

def authTimeout : Nat := 30000
def bppTimeout : Nat := 120000
def cancelTimeout : Nat := 10000
def installMin : Nat := 45000

/-- The card's and the server's transaction ids. -/
abbrev Session := List UInt8 × String

abbrev Steps := Task Ask Ask.Answer Stop (Option Session)

def ask (q : Ask) : Steps q.Answer := Task.put q

def progress (step : Step) (data : Json) : Steps Unit := ask (.progress step data)

/-- A Cancel that waits in the channel stops the download. -/
def honourCancel : Steps Unit := do
  let c ← ask .cancelled
  Task.stopIf c (Stop.user .cancel)

def orNull (s : Option String) : Json := (s.map Json.str).getD .null

def metadataJson (m : ProfileMetadata) : Json :=
  .obj [("iccid", .str m.iccid), ("serviceProviderName", orNull m.serviceProviderName),
    ("profileName", orNull m.profileName), ("iconType", orNull m.iconType), ("icon", orNull m.icon),
    ("profileClass", orNull m.profileClass)]

/-- No confirmation code, or an empty one. -/
def lacksCode (confirmationCode : Option String) : Bool := confirmationCode.all String.isEmpty

/-- The ccRequiredFlag of smdpSigned2. -/
def confirmationRequiredByServer (cx : Codec) (b64SmdpSigned2 : String) : Bool :=
  match (cx.find (cx.decode b64SmdpSigned2) 0x30).bind fun s => cx.find s 0x01 with
  | some flag => flag.any (· != 0)
  | none => false

/-- The new profile and its install receipt. -/
structure Installed where
  iccid : Option String
  seqNumber : Nat

/-- With a preview, waits for its answer, and silence is `previewTimeout`; without one, a
    Cancel that waits is honoured. -/
def awaitDecision (preview : Bool) : Steps Unit :=
  if preview then do
    progress .preview (.str "y/n")
    let limit ← ask .left
    match ← ask (.recvTimeout limit) with
    | some .accept => pure ()
    | some d => throw (Stop.user d)
    | none => throw (Stop.user .previewTimeout)
  else honourCancel

/-- Installs the package; a failure the card reports has ended its session. -/
def install (package : String) : Steps Installed := do
  let loaded ← ask (.loadBoundProfilePackage package)
  let result ← Task.orStop loaded fun e =>
    Stop.new (Step.loadBoundProfilePackage.text ++ ": " ++ e.text) (some .loadBppExecutionError)
  if result.isSuccess then pure ⟨result.iccid, result.seqNumber⟩
  else
    set (none : Option Session)
    let command := bppCommandIdStr (result.bppCommandId.getD 0xFF)
    let reason := errorReasonStr (result.errorReason.getD 0xFF)
    throw (Stop.new (Step.loadBoundProfilePackage.text ++ ": " ++ command ++ ", " ++ reason) none)

/-- Up to the open card session: the ids of both sides and the card's answer to the server. -/
def authenticate (code : ActivationCode) : Steps (Session × String) := do
  progress .getEuiccChallengeAndInfo .null
  let challenge ← ask .getEuiccChallenge
  let challenge ← Task.orStop challenge (Stop.card .getEuiccChallengeAndInfo)
  let info1 ← ask .getEuiccInfo1
  let info1 ← Task.orStop info1 (Stop.card .getEuiccChallengeAndInfo)
  honourCancel
  progress .initiateAuthentication (.str code.smdp)
  let limit ← ask .left
  let initiated ← ask (.initiateAuthentication (min authTimeout limit) code.smdp challenge info1)
  let (serverTid, auth) ← Task.orStop initiated (Stop.server .initiateAuthentication)
  honourCancel
  progress .authenticateServer .null
  let authenticated ← ask (.authenticateServer auth code.matchingId)
  let (cardTid, response) ← Task.orStop authenticated (Stop.card .authenticateServer)
  set (some (cardTid, serverTid) : Option Session)
  honourCancel
  pure ((cardTid, serverTid), response)

def steps (cx : Codec) (code : ActivationCode) (confirmationCode : Option String) (preview : Bool) :
    Steps Installed := do
  Task.stopIf (code.confirmationRequired && lacksCode confirmationCode)
    (Stop.new "this activation code needs a confirmation code" none)
  let ((cardTid, serverTid), response) ← authenticate code
  progress .authenticateClient .null
  let limit ← ask .left
  let prepare ← ask (.authenticateClient (min authTimeout limit) code.smdp serverTid response)
  let prepare ← Task.orStop prepare (Stop.server .authenticateClient)
  let metadata ← Task.orStop (cx.parseMetadata prepare.b64ProfileMetadata) fun e =>
    Stop.fail .metadataParse e.text
  progress .metadataParse (metadataJson metadata)
  Task.stopIf (lacksCode confirmationCode && confirmationRequiredByServer cx prepare.b64SmdpSigned2)
    (Stop.new "the operator requires a confirmation code for this profile" (some .postponed))
  awaitDecision preview
  progress .prepareDownload .null
  let prepared ← ask (.prepareDownload prepare cardTid confirmationCode)
  let prepared ← Task.orStop prepared (Stop.card .prepareDownload)
  honourCancel
  progress .getBoundProfilePackage .null
  let limit ← ask .left
  let package ← ask (.getBoundProfilePackage (min bppTimeout limit) code.smdp serverTid prepared)
  let package ← Task.orStop package (Stop.server .getBoundProfilePackage)
  honourCancel
  let remaining ← ask .left
  Task.stopIf (remaining < installMin) (Stop.new "not enough time left to install" (some .timeout))
  progress .loadBoundProfilePackage .null
  honourCancel
  install package

/-- Cancels both sessions of a download that stopped. -/
def cancelSessions (code : ActivationCode) (session : Session) (reason : CancelSessionReason)
    (notifyServer : Bool) : Procedure Unit := do
  Ask.put (.progress .es10bCancelSession (.str code.smdp))
  let answer ← cancelSession session.1 reason
  match answer with
  | .ok b64 =>
    if notifyServer then
      Ask.put (.progress .es9pCancelSession (.str code.smdp))
      let _ ← Ask.put (.es9pCancelSession cancelTimeout code.smdp session.2 b64)
  | .error _ => pure ()

/-- A Cancel pressed while the failing step ran still means "postpone". -/
def overridden (stop : Stop) : Procedure Stop := do
  if stop.reason.isSome then
    let c ← Ask.put .cancelled
    pure (if c then Stop.user .cancel else stop)
  else pure stop

def download (cx : Codec) (code : ActivationCode) (confirmationCode : Option String) (preview : Bool) :
    Procedure (Except String Installed) := do
  let (outcome, session) ← (steps cx code confirmationCode preview).run.run none
  match outcome with
  | .ok data => pure (.ok data)
  | .error stop =>
    let stop ← overridden stop
    match session, stop.reason with
    | some session, some reason => cancelSessions code session reason stop.notifyServer
    | _, _ => pure ()
    pure (.error stop.message)

end OpenU60.Esim
