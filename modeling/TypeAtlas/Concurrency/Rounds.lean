import TypeAtlas.Concurrency.Job

namespace TypeAtlas.Concurrency.Job

variable {ν ε α : Type}

mutual

/-- A round of a job: everyone in it who is at an operation does this, from the first part to the
last, and goes on to the next one. With `performs` false they only go on to their first. A join ends
with the last of its parts. It fails with the first of them that does, and then `lost` notes how
many others are not done. -/
def round (lost : Nat → List ν) (performs : Bool) : Job ν ε α → List ν × Except ε (Job ν ε α)
  | .done a => ([], .ok (.done a))
  | .fail e => ([], .error e)
  | .operation notes next =>
    if performs then
      let (more, rest) := next.round lost false
      (notes ++ more, rest)
    else ([], .ok (.operation notes next))
  | .join parts combine =>
    match roundAll lost performs 0 parts with
    | (notes, .error e) => (notes, .error e)
    | (notes, .ok rest) =>
      match allDone? rest with
      | none => (notes, .ok (.join rest combine))
      | some found =>
        let (more, a) := combine found
        (notes ++ more, .ok (.done a))

/-- The round of the parts of a join, of which `undone` earlier ones are not done. -/
def roundAll (lost : Nat → List ν) (performs : Bool) (undone : Nat) :
    List (Job ν ε α) → List ν × Except ε (List (Job ν ε α))
  | [] => ([], .ok [])
  | j :: js =>
    match j.round lost performs with
    | (notes, .error e) => (notes ++ lost (undone + (js.filter (!·.isDone)).length), .error e)
    | (notes, .ok rest) =>
      let (more, others) :=
        roundAll lost performs (if rest.isDone then undone else undone + 1) js
      (notes ++ more, others.map (rest :: ·))

end

/-- Does a job in at most `n` rounds. If it is not done then, the rest is done in order. -/
def rounds (lost : Nat → List ν) : Nat → Job ν ε α → List ν × Except ε α
  | 0, j => ([], j.result)
  | n + 1, j =>
    match j.round lost true with
    | (notes, .error e) => (notes, .error e)
    | (notes, .ok rest) =>
      let (more, result) := rounds lost n rest
      (notes ++ more, result)

/-- Does a job in rounds, which is what comes of those who stand in one line for each operation. -/
def run (lost : Nat → List ν) (j : Job ν ε α) : List ν × Except ε α :=
  match j.round lost false with
  | (notes, .error e) => (notes, .error e)
  | (notes, .ok begun) =>
    let (more, result) := rounds lost begun.length begun
    (notes ++ more, result)

end TypeAtlas.Concurrency.Job
