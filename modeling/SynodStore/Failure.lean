import SynodStore.Ballot

namespace SynodStore

inductive Phase where
  | prepare
  | accept
deriving DecidableEq

def Phase.text : Phase → String
  | prepare => "prepare"
  | accept => "accept"

inductive Misconfiguration where
  | clusterSize (size : Nat)
  | crashChecks (least most : Nat)
  | noRounds
  | replicaId (id : Nat)
deriving DecidableEq

def Misconfiguration.message : Misconfiguration → String
  | clusterSize n => "cluster size " ++ toString n ++ " outside 1..=" ++ toString maxReplicas
  | crashChecks lo hi =>
      "crash checks " ++ toString lo ++ "..=" ++ toString hi ++ " must be a non-empty range above zero"
  | noRounds => "max_rounds must be positive"
  | replicaId id => "replica id " ++ toString id ++ " does not fit in " ++ toString idBits ++ " bits"

inductive Failure where
  | quorumNotReached (phase : Phase) (responses majority : Nat)
  | degraded (ballot : Ballot) (accepted majority : Nat)
  | exhausted (rounds : Nat)
  | unwired
  | invalidConfig (cause : Misconfiguration)
  | fault (cause : Ballot.Fault)
deriving DecidableEq

def Failure.message : Failure → String
  | quorumNotReached phase responses majority =>
      phase.text ++ " phase reached " ++ toString responses ++ "/" ++ toString majority ++ " replicas"
  | degraded ballot accepted majority =>
      "proposal " ++ ballot.text ++ " learned with only " ++ toString accepted ++ "/" ++ toString majority ++ " accepts"
  | exhausted rounds => "pre-empted in all " ++ toString rounds ++ " rounds"
  | unwired => "proposer has no replicas to talk to"
  | invalidConfig cause => "invalid config: " ++ cause.message
  | fault cause => cause.message

end SynodStore
