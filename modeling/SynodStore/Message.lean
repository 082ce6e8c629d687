import SynodStore.Action
import SynodStore.Ballot

namespace SynodStore

structure Vote where
  ballot : Ballot
  action : Action
deriving DecidableEq

structure Prepare where
  ballot : Ballot
  key : String
  sender : UInt32
deriving DecidableEq

structure Promise where
  ballot : Ballot
  accepted : Option Vote
deriving DecidableEq

structure Proposal where
  ballot : Ballot
  sender : UInt32
  action : Action
deriving DecidableEq

def Proposal.vote (p : Proposal) : Vote :=
  ⟨p.ballot, p.action⟩

inductive Request where
  | prepare (message : Prepare)
  | accept (message : Proposal)
  | learn (message : Proposal)
deriving DecidableEq

/-- A replica that refuses a prepare or an accept answers without a promise or a vote. -/
inductive Reply where
  | promise (answer : Option Promise)
  | vote (answer : Option Vote)
  | learned
deriving DecidableEq

def Request.refusal : Request → Reply
  | prepare _ => .promise none
  | accept _ => .vote none
  | learn _ => .learned

end SynodStore
