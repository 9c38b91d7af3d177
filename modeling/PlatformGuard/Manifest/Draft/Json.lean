import PlatformGuard.Json.Form
import PlatformGuard.Manifest.Draft

/-!
# The JSON form of drafts

Drafts are written by hand, so numbers may be given in any of the usual bases, byte strings as texts,
and most fields have defaults.
-/

namespace PlatformGuard.Manifest.Draft

open Json Json.Fields

def Bounds.form : Form Bounds :=
  ((required "start" .radix32).both (required "end" .radix32)).convert
    (fun (first, last) => { first, last })
    (fun b => (b.first, b.last)) |>.form

def RwRegion.form : Form RwRegion :=
  ((defaulted "policy" .variant .doNothing).both <|
    (defaulted "update_only" .bool false).both <|
    (required "start" .radix32).both (required "end" .radix32)).convert
    (fun (policy, updateOnly, first, last) => { policy, updateOnly, first, last })
    (fun r => (r.policy, r.updateOnly, r.first, r.last)) |>.form

def Image.form : Form Image :=
  ((required "hash_type" .variant).both <|
    (defaulted "validate_on_boot" .bool false).both <|
    (omissible "hash" .hex []).both <|
    (omissible "signature" .hex []).both <|
    (omissible "key" .hex []).both (required "regions" (.list Bounds.form))).convert
    (fun (algorithm, validateOnBoot, hash, signature, key, regions) =>
      { algorithm, validateOnBoot, hash, signature, key, regions })
    (fun i => (i.algorithm, i.validateOnBoot, i.hash, i.signature, i.key, i.regions)) |>.form

def Version.form : Form Version :=
  ((required "version" .byteString).both <|
    (required "address" .radix32).both <|
    (defaulted "rw_regions" (.list RwRegion.form) []).both
      (defaulted "images" (.list Image.form) [])).convert
    (fun (version, address, rwRegions, images) => { version, address, rwRegions, images })
    (fun v => (v.version, v.address, v.rwRegions, v.images)) |>.form

def Firmware.form : Form Firmware :=
  ((omissible "id" (.option .text) none).both <|
    (defaulted "flags" .radix8 0).both (defaulted "versions" (.list Version.form) [])).convert
    (fun (id, flags, versions) => { id, flags, versions })
    (fun f => (f.id, f.flags, f.versions)) |>.form

def SmbusRule.form : Form SmbusRule :=
  ((required "bus_id" .radix8).both <|
    (required "rule_id" .radix8).both <|
    (required "device_address" .radix8).both (required "passlist" .hex)).convert
    (fun (bus, rule, device, passlist) => { bus, rule, device, passlist })
    (fun r => (r.bus, r.rule, r.device, r.passlist)) |>.form

/-- The form of a whole draft. -/
def form : Form Draft :=
  ((required "format" .variant).both <|
    (required "id" .radix32).both <|
    (required "platform_id" .byteString).both <|
    (defaulted "blank" .radix8 Flash.erasedByte).both <|
    (defaulted "firmware" (.list Firmware.form) []).both
      (defaulted "smbus_rules" (.list SmbusRule.form) [])).convert
    (fun (format, id, platformId, blank, firmware, rules) =>
      { format, id, platformId, blank, firmware, rules })
    (fun d => (d.format, d.id, d.platformId, d.blank, d.firmware, d.rules)) |>.form

end PlatformGuard.Manifest.Draft
