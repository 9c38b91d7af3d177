import PlatformGuard.Filter.Target
import PlatformGuard.Region.Json
import PlatformGuard.Update

/-!
# Options of a session
-/

namespace PlatformGuard.Session

/-- What a session is set up with. -/
structure Options where
  /-- Where the manifest lies in its store. -/
  manifestAddress : UInt32
  /-- How much of each cache the session uses. -/
  maxManifest : UInt32
  maxPlatformId : UInt32
  maxSignature : UInt32
  /-- The part of the host's flash that updates may write. -/
  updateRegion : Region
  eraseUnit : Update.EraseUnit
  /-- Whether a whole region is erased before the first write to it. -/
  eraseAll : Bool
  target : Filter.Target
  deriving DecidableEq, Repr

namespace Options

open Json Json.Fields

/-- How deep the values may nest that are kept while the update region is read. -/
def regionDepth : Nat := 125

def form : Form Options :=
  ((required "manifest_addr" .radix32).both <|
    (required "max_manifest_len" .radix32).both <|
    (required "max_platform_id" .unsigned32).both <|
    (required "max_signature" .unsigned32).both <|
    (required "update_region" (Region.form regionDepth)).both <|
    (required "erase_granularity" .variant).both <|
    (defaulted "erase_all" .bool false).both <|
    (defaulted "spi_device" .unsigned8 0).both (defaulted "i2c_bus" .unsigned8 0)).convert
    (fun (manifestAddress, maxManifest, maxPlatformId, maxSignature, updateRegion, eraseUnit,
        eraseAll, spiDevice, i2cBus) =>
      { manifestAddress, maxManifest, maxPlatformId, maxSignature, updateRegion, eraseUnit,
        eraseAll
        target := { spiDevice, i2cBus } })
    (fun o => (o.manifestAddress, o.maxManifest, o.maxPlatformId, o.maxSignature, o.updateRegion,
      o.eraseUnit, o.eraseAll, o.target.spiDevice, o.target.i2cBus)) |>.form

end Options

end PlatformGuard.Session
