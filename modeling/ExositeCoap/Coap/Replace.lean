import ExositeCoap.Coap.Payload
import ExositeCoap.Coap.Safety
import ExositeCoap.Coap.Iterate

/-!
# Setting a payload, and setting it again

`coap_set_payload` writes a first payload behind a marker of its own.  Where a marker is
found it stores the new payload from the marker on, so the marker is gone and what was
stored is read as options.  The walk of `coap_get_payload` passes the old options first,
and behind them fewer bytes are left than the payload has (`Consists.payload_lost`).
-/

namespace ExositeCoap.Coap

open Lib Wire

section Options

variable {pdu : CoapPdu} {message : Message} (holds : pdu.Holds message)
  (encodable : message.Encodable)

include holds encodable

end Options

section Replace

variable {pdu : CoapPdu} {message : Message} (holds : pdu.Holds message)
  (encodable : message.Encodable) {old : List UInt8} (has : message.payload = some old)

include holds encodable has

end Replace

section Twice

variable {pdu middle : CoapPdu} {message : Message} (holds : pdu.Holds message)
  (encodable : message.Encodable) (none : message.payload = none)

include holds encodable none

end Twice

end ExositeCoap.Coap
