import ExositeCoap.Coap.Write

/-!
# Inserting an option in front of others

`coap_add_option` slides the options behind the insertion point and has
`coap_adjust_option_deltas` rewrite their headers.  That loop gets right the first
option it meets, as long as the header keeps its size and a payload marker ends the
loop behind it.  It goes wrong in every other case: later options are rewritten
with their number relative to the insertion point, a header that shrinks leaves a
gap, and without a payload the loop runs on behind the packet, because the length
it is given counts the inserted option as well.
-/

namespace ExositeCoap.Coap

open Lib Wire

section Split

variable {num : Nat} {options : List Opt}

end Split

/-! ## The walk and the adjustment -/

section Insertion

variable {pdu : CoapPdu} {message : Message} {option : Opt} (holds : pdu.Holds message)
  (encodable : message.Encodable)

include holds encodable

end Insertion

end ExositeCoap.Coap
