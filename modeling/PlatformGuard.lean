import PlatformGuard.Bits
import PlatformGuard.Bits.Runs
import PlatformGuard.Bytes
import PlatformGuard.Bytes.Decoder
import PlatformGuard.Bytes.Sink
import PlatformGuard.Cli
import PlatformGuard.Cli.Arguments
import PlatformGuard.Cli.Memory
import PlatformGuard.Engines
import PlatformGuard.Exclusive
import PlatformGuard.Fault
import PlatformGuard.Filter
import PlatformGuard.Filter.Command
import PlatformGuard.Filter.Event
import PlatformGuard.Filter.Faulty
import PlatformGuard.Filter.Hardware
import PlatformGuard.Filter.Policy
import PlatformGuard.Filter.Range
import PlatformGuard.Filter.Slot
import PlatformGuard.Filter.Target
import PlatformGuard.Flash
import PlatformGuard.Flash.Access
import PlatformGuard.Flash.Faulty
import PlatformGuard.Flash.Ram
import PlatformGuard.Flash.Window
import PlatformGuard.Hash
import PlatformGuard.Hash.Faulty
import PlatformGuard.Hash.Sha2
import PlatformGuard.Hash.Software
import PlatformGuard.Json
import PlatformGuard.Json.Decode
import PlatformGuard.Json.Form
import PlatformGuard.Json.Number
import PlatformGuard.Json.Scan
import PlatformGuard.Main
import PlatformGuard.Manifest
import PlatformGuard.Manifest.Draft
import PlatformGuard.Manifest.Draft.Json
import PlatformGuard.Manifest.Envelope
import PlatformGuard.Manifest.Error
import PlatformGuard.Manifest.Integrity
import PlatformGuard.Manifest.Record
import PlatformGuard.Manifest.Stored
import PlatformGuard.Manifest.Trust
import PlatformGuard.Manifest.View
import PlatformGuard.Recovery
import PlatformGuard.Region
import PlatformGuard.Region.Json
import PlatformGuard.Session
import PlatformGuard.Session.Options
import PlatformGuard.Signature
import PlatformGuard.Signature.Der
import PlatformGuard.Signature.Forced
import PlatformGuard.Signature.Key
import PlatformGuard.Signature.Pkcs8
import PlatformGuard.Signature.Rsa
import PlatformGuard.Status
import PlatformGuard.Text.Quoted
import PlatformGuard.Text.Shown
import PlatformGuard.Update
import PlatformGuard.Update.Host
import PlatformGuard.Proofs.Bits
import PlatformGuard.Proofs.Runs
import PlatformGuard.Proofs.Bytes
import PlatformGuard.Proofs.Reading
import PlatformGuard.Proofs.Regions
import PlatformGuard.Proofs.Delimiting
import PlatformGuard.Proofs.Hashing
import PlatformGuard.Proofs.SignedExtent
import PlatformGuard.Proofs.Storing
import PlatformGuard.Proofs.Authentication
import PlatformGuard.Proofs.Updating
import PlatformGuard.Proofs.Confinement
import PlatformGuard.Proofs.Ranges
import PlatformGuard.Proofs.Policies
import PlatformGuard.Proofs.Programming
import PlatformGuard.Proofs.Rules
import PlatformGuard.Proofs.Printable
import PlatformGuard.Proofs.Drafts
import PlatformGuard.Proofs.RoundTrip
import PlatformGuard.Proofs.Locking
import PlatformGuard.Proofs.Sessions
import PlatformGuard.Proofs.Reserved
import PlatformGuard.Proofs.Reencoding
import PlatformGuard.Proofs.Accepting
import PlatformGuard.Proofs.Signing
import PlatformGuard.Proofs.Phases
import PlatformGuard.Proofs.Streaming
import PlatformGuard.Proofs.Verdicts
import PlatformGuard.Proofs.Exposure
import PlatformGuard.Proofs.Integrity
import PlatformGuard.Proofs.HashSessions
import PlatformGuard.Proofs.Applying
import PlatformGuard.Proofs.Tokens
import PlatformGuard.Proofs.Spellings
import PlatformGuard.Proofs.Forms
import PlatformGuard.Proofs.Showing
import PlatformGuard.Proofs.Privileges
import PlatformGuard.Proofs.Contents
import PlatformGuard.Proofs.Sections
import PlatformGuard.Proofs.Simulation
import PlatformGuard.Proofs.Walks
import PlatformGuard.Proofs.Views
import PlatformGuard.Proofs.Records
import PlatformGuard.Proofs.CommandMaps
import PlatformGuard.Proofs.Refusals
import PlatformGuard.Proofs.Windows
import PlatformGuard.Proofs.DigestContexts
import PlatformGuard.Proofs.HashRuns
import PlatformGuard.Proofs.Getters
import PlatformGuard.Proofs.Cycles
import PlatformGuard.Proofs.KeyBlobs
import PlatformGuard.Proofs.Anchors
import PlatformGuard.Proofs.Rings
import PlatformGuard.Proofs.EventRuns
import PlatformGuard.Proofs.HexTexts
