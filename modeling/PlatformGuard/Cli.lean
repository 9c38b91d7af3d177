import PlatformGuard.Cli.Arguments
import PlatformGuard.Hash.Software
import PlatformGuard.Manifest.Draft.Json
import PlatformGuard.Signature.Pkcs8

/-!
# The command line

The commands are written over a `Console`, which is all that they need of the world: files, the
standard streams, and a place for messages.
-/

namespace PlatformGuard.Cli

/-- What the commands need of the world.  A file that cannot be used gives the reason as a text. -/
class Console (m : Type → Type) where
  /-- Checks that a file can be read. -/
  openFile : (path : String) → m (Except String Unit)
  /-- Makes a file empty, or makes an empty file. -/
  createFile : (path : String) → m (Except String Unit)
  readFile : (path : String) → m (Except String Bytes)
  writeFile : (path : String) → Bytes → m (Except String Unit)
  readInput : m (Except String Bytes)
  writeOutput : Bytes → m (Except String Unit)
  /-- Prints a line for the user. -/
  report : String → m Unit

/-- Why a command stops: what it could not do, and the reason. -/
structure Failure where
  message : String
  reason : String
  deriving DecidableEq, Repr

def Failure.line (f : Failure) : String := "error: " ++ f.message ++ ": " ++ f.reason

/-- A part of a command. -/
abbrev Program (m : Type → Type) := ExceptT Failure m

/-! ### Failures -/

/-- Stops with a message if something failed. -/
def orFail {m : Type → Type} {ε α : Type} [Monad m] (message : String) (reason : ε → String) :
    Except ε α → Program m α
  | .ok a => pure a
  | .error e => throw ⟨message, reason e⟩

def jsonReason (e : Json.Error) : String := e.message?.getD "malformed JSON"

/-! ### Streams -/

section commands
variable {m : Type → Type} [Monad m] [Console m]

/-- Runs an operation of the console and stops with a message if it fails. -/
def use {α : Type} (message : String) (operation : m (Except String α)) : Program m α := do
  let r ← (operation : m _)
  orFail message id r

/-- Checks the input and makes the output, in this order. -/
def openStreams (c : Command) : Program m Unit := do
  if let some path := c.input then use ("failed to open " ++ path) (Console.openFile path)
  if let some path := c.output then use ("failed to create " ++ path) (Console.createFile path)

def readAll (c : Command) : Program m Bytes :=
  use "failed to read input" <|
    match c.input with
    | some path => Console.readFile path
    | none => Console.readInput

def writeAll (message : String) (c : Command) (bytes : Bytes) : Program m Unit :=
  use message <|
    match c.output with
    | some path => Console.writeFile path bytes
    | none => Console.writeOutput bytes

def warn (text : String) : Program m Unit := (Console.report ("warning: " ++ text) : m Unit)

/-- Reads a private key. -/
def readKey (path : String) : Program m Rsa.PrivateKey := do
  let bytes ← use ("failed to open " ++ path) (Console.readFile path)
  match Rsa.PrivateKey.ofPkcs8? bytes with
  | some key => return key
  | none => throw ⟨"failed to parse key", "not an RSA key in PKCS 8"⟩

/-! ### Signing -/

/-- The manifest that a draft describes, signed. -/
def signDraft (key : Rsa.PrivateKey) (d : Manifest.Draft) : Except Manifest.Draft.Error Bytes :=
  (d.sign (⟨.idle, key⟩ : Engines Hash.SoftEngine Rsa.PrivateKey)).1

def sign (c : Command) (keyPath : String) (appendKey : Bool) : Program m Unit := do
  openStreams c
  let key ← readKey keyPath
  let text ← readAll c
  let draft ← orFail "failed to parse PFM" jsonReason (Json.read Manifest.Draft.form text)
  let bytes ← orFail "failed to sign PFM" Status.label (signDraft key draft)
  writeAll "failed to write manifest" c (bytes ++ if appendKey then key.publicBlob else [])

/-! ### Showing -/

/-- Whether a manifest is signed by a key. -/
def isSignedBy (key : PublicKey) (e : Manifest.Envelope) : Bool :=
  (Engines.verifySigned () key e.signed e.signature none
    (⟨.idle, ⟨⟩⟩ : Engines Hash.SoftEngine Rsa.SoftVerifier)).1.isOk

/-- Warns unless a manifest is signed by the key in a blob. -/
def checkSignature (bytes blob : Bytes) : Program m Unit := do
  match PublicKey.ofBlob blob with
  | .error e => warn ("unusable key blob: " ++ Status.label e)
  | .ok key =>
    let envelope ← orFail "failed to parse envelope" Status.label (Manifest.Envelope.parse bytes)
    if !isSignedBy key envelope then warn "signature verification failed"

/-- The blob of the key to check with: that of the key that was named, or what follows a manifest of the
second format. -/
def checkingBlob (keyPath : Option String) (format : Manifest.Format) (trailer : Bytes) :
    Program m (Option Bytes) := do
  match keyPath, format with
  | some path, _ =>
    let key ← readKey path
    return some key.publicBlob
  | none, .v2 => return some trailer
  | none, .legacy => return none

def present (c : Command) (keyPath : Option String) (pretty : Bool) : Program m Unit := do
  openStreams c
  let all ← readAll c
  let header ← orFail "bad manifest header" Status.label (Manifest.Header.decoder.read all)
  let length := header.length.toNat
  if all.length < length then
    throw ⟨"manifest truncated", toString all.length ++ " < " ++ toString length⟩
  let bytes := all.take length
  match ← checkingBlob keyPath header.format (all.drop length) with
  | some blob => checkSignature bytes blob
  | none => warn "signature not checked"
  let manifest ← orFail "failed to parse PFM" Status.label (Manifest.parse bytes)
  let value := Manifest.Draft.form.write (.ofManifest manifest)
  writeAll "failed to serialize PFM" c
    (Bytes.ofText (if pretty then value.renderIndented else value.render))

/-! ### Commands -/

def Command.run (c : Command) : Program m Unit :=
  match c.action with
  | .sign key appendKey => sign c key appendKey
  | .present key pretty => present c key pretty

/-- Runs a command line and gives the exit code: 1 if it is refused, and 2 if the command fails. -/
def run (arguments : List String) : m UInt32 := do
  match Command.parse arguments with
  | .error e =>
    Console.report ("error: " ++ e.message)
    return 1
  | .ok c =>
    match ← c.run.run with
    | .ok () => return 0
    | .error f =>
      Console.report f.line
      return 2

end commands

end PlatformGuard.Cli
