import ExositeCoap.Coap.Bounds
import ExositeCoap.Coap.Refine
import ExositeCoap.Coap.Reencode
import ExositeCoap.Coap.Safety
import ExositeCoap.Coap.Insert
import ExositeCoap.Coap.Replace
import ExositeCoap.Coap.Terminate
import ExositeCoap.Coap.Codec
import ExositeCoap.Exosite.Typing
import ExositeCoap.Exosite.Frozen
import ExositeCoap.Exosite.Response
import ExositeCoap.Exosite.Reply
import ExositeCoap.Exosite.Routing
import ExositeCoap.Exosite.Whole
import ExositeCoap.Exosite.Encode
import ExositeCoap.Exosite.Deliver
import ExositeCoap.Exosite.Room
import ExositeCoap.Exosite.Discipline
import ExositeCoap.Exosite.Queue
import ExositeCoap.Exosite.Cik
import ExositeCoap.Exosite.Commute
import ExositeCoap.Exosite.Retry
import ExositeCoap.Exosite.Reset
import ExositeCoap.Exosite.Idle
import ExositeCoap.Exosite.Good
import ExositeCoap.Exosite.Sequence
import ExositeCoap.Exosite.Token
import ExositeCoap.Exosite.Failure
import ExositeCoap.Exosite.Total
import ExositeCoap.Exosite.Patience
import ExositeCoap.Exosite.Owed
import ExositeCoap.Exosite.Pal
import ExositeCoap.Example.Behaviour
import ExositeCoap.Exosite.Packets
import ExositeCoap.Exosite.Rate
import ExositeCoap.Exosite.Renewal
