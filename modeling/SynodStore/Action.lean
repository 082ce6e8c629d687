import Std.Data.ExtTreeMap

namespace SynodStore

abbrev Store := Std.ExtTreeMap String String

inductive Action where
  | put (key value : String)
  | delete (key : String)
deriving DecidableEq

namespace Action

def key : Action → String
  | put k _ => k
  | delete k => k

def value? : Action → Option String
  | put _ v => some v
  | delete _ => none

def apply : Action → Store → Store
  | put k v, s => s.insert k v
  | delete k, s => s.erase k

def text : Action → String
  | put k v => "PUT [" ++ k ++ "] = " ++ v
  | delete k => "DELETE [" ++ k ++ "]"

theorem getElem?_apply (a : Action) (s : Store) (k : String) :
    (a.apply s)[k]? = if a.key = k then a.value? else s[k]? := by
  by_cases h : a.key = k <;> cases a <;>
    simp_all [apply, key, value?, Std.ExtTreeMap.getElem?_insert, Std.ExtTreeMap.getElem?_erase]

theorem apply_apply {a b : Action} (h : a.key = b.key) (s : Store) : b.apply (a.apply s) = b.apply s := by
  refine Std.ExtTreeMap.ext_getElem? fun k => ?_
  by_cases hk : b.key = k <;> simp [getElem?_apply, h, hk]

end Action

def Store.history : Store → List Action → List Store
  | _, [] => []
  | s, a :: as => a.apply s :: history (a.apply s) as

end SynodStore
