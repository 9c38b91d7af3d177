import PlatformGuard.Json.Form

/-!
# Targets of a filter policy
-/

namespace PlatformGuard.Filter

/-- The part of the filter hardware that a policy is for. -/
structure Target where
  /-- The monitor on the SPI bus to the protected flash. -/
  spiDevice : UInt8
  i2cBus : UInt8
  deriving DecidableEq, Repr

namespace Target

open Json Json.Fields

def form : Form Target :=
  ((required "spi_device" .unsigned8).both (required "i2c_bus" .unsigned8)).convert
    (fun (spiDevice, i2cBus) => { spiDevice, i2cBus })
    (fun t => (t.spiDevice, t.i2cBus)) |>.form

end Target

end PlatformGuard.Filter
