import Docket.Service.Documents

/-! # Requests to the service

All the operations that callers may ask for, as one type.
-/

namespace Docket

inductive Request where
  | generateNumber (documentType : Id) (series : String)
  | createCounter (new : NewCounter)
  | updateCounter (id : Id) (settings : CounterSettings)
  | deleteCounter (id : Id)
  | getCounter (key : CounterKey)
  | listCounters
  | createDocument (new : NewDocument)
  | getDocument (id : Id)
  | assignNumber (id : Id) (series : String)
  | changeStatus (id : Id) (target : Status) (reason : Option String)
  | availableTransitions (id : Id)
  | statusHistory (id : Id)
  | validateTransition (id : Id) (target : Status)

namespace Request

/-- What a request answers where it succeeds. -/
def Answer : Request → Type
  | generateNumber _ _ => Number
  | createCounter _ => Counter
  | updateCounter _ _ => Counter
  | deleteCounter _ => Unit
  | getCounter _ => Counter
  | listCounters => List Counter
  | createDocument _ => Document
  | getDocument _ => Document
  | assignNumber _ _ => Document
  | changeStatus _ _ _ => Document
  | availableTransitions _ => List Status
  | statusHistory _ => List StatusChange
  | validateTransition _ _ => Verdict

end Request

namespace Service

def serve (service : Service) (call : Call) :
    (request : Request) → Action (Outcome request.Answer)
  | .generateNumber documentType series => service.generateNumber call documentType series
  | .createCounter new => service.createCounter call new
  | .updateCounter id settings => service.updateCounter call id settings
  | .deleteCounter id => service.deleteCounter call id
  | .getCounter key => getCounter call key
  | .listCounters => listCounters call
  | .createDocument new => service.createDocument call new
  | .getDocument id => getDocument call id
  | .assignNumber id series => service.assignNumber call id series
  | .changeStatus id target reason => service.changeStatus call id target reason
  | .availableTransitions id => availableTransitions call id
  | .statusHistory id => statusHistory call id
  | .validateTransition id target => validateTransition call id target

end Service

end Docket
