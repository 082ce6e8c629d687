namespace SynodStore

variable {α σ τ : Type}

def focus (get : σ → τ) (set : τ → σ → σ) (f : StateM τ α) : StateM σ α := fun s =>
  let p := f (get s)
  (p.1, set p.2 s)

end SynodStore
