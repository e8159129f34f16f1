import LibRtmp.Lib.RoundRobin
import LibRtmp.Session.State

namespace LibRtmp

/-- Publisher ids of socket-less injects have the high bit set. -/
def externalPublisherIdBit : Nat := 2 ^ 63

def isExternalPublisherId (id : Nat) : Bool := id.testBit 63

def RelayFrame.route (f : RelayFrame) : RouteKey := (f.app, f.streamName)

def RelayFrame.cachedPayload (f : RelayFrame) : List UInt8 := f.cachePayload.getD f.payload

/-- Frames are regrouped by route first, since one publisher's queue may mix routes. -/
def roundRobinRelayQueues (queues : List (List RelayFrame)) (start : Nat) : List RelayFrame :=
  RoundRobin.merge (RoundRobin.group RelayFrame.route queues.flatten) start

/-- With `injectFirst` a route whose first frame was injected leads. -/
def mergeLocalAndInjectedByRoute (locals injected : List RelayFrame) (injectFirst : Bool) :
    List RelayFrame :=
  let queues := RoundRobin.group RelayFrame.route (locals ++ injected)
  let start :=
    if injectFirst then
      (queues.findIdx? (fun q => q.head?.any (fun f => isExternalPublisherId f.publisherConnId))).getD
        0
    else 0
  roundRobinRelayQueues queues start

end LibRtmp
