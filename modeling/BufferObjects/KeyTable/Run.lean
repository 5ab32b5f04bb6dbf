import BufferObjects.KeyTable.Report

/-!
Runs on one key table whose items are 64-bit integers: a list of steps, and for each of them what it
answers, how many entries the table has then, and what was reported.
-/

namespace BufferObjects.KeyTable.Run

/-- A step that may need memory comes with what memory answers. -/
inductive Step
  | insert (key : UInt64) (item : Int64) (room : Bool)
  | find (key : UInt64)
  /-- Adds to the item of a key, in place. -/
  | add (key : UInt64) (delta : Int64)
  | contains (key : UInt64)
  | remove (key : UInt64)
  | insertAny (item : Int64) (seed : UInt64) (bits shift : UInt32) (add : UInt64) (room : Bool)
  | drain
  | list
  | reportChain (key : UInt64)
  | chainLength (key : UInt64)
  | isEmpty
  /-- Gives the table up, with whatever is in it. -/
  | giveUp

inductive Answer
  | done
  | item (a : Int64)
  | key (k : UInt64)
  | truth (b : Bool)
  | count (n : Nat)
  | entries (es : List (UInt64 × Int64))
  | error (cause : TableError)
  | fault (fault : Fault)

/-- A sum, unless it leaves its word. -/
def sum? (a b : Int64) : Except Fault Int64 :=
  let s := a.toInt + b.toInt
  if Int64.minValue.toInt ≤ s ∧ s ≤ Int64.maxValue.toInt then .ok (Int64.ofInt s)
  else .error .additionOverflow

def Answer.ofFound : Except TableError Int64 → Answer
  | .ok a => .item a
  | .error e => .error e

def addTo (t : KeyTable Int64) (key : UInt64) (delta : Int64) : KeyTable Int64 × Answer :=
  match t.find key with
  | .error e => (t, .error e)
  | .ok a =>
    match sum? a delta with
    | .error f => (t, .fault f)
    | .ok b =>
      match t.update key fun _ => b with
      | .ok (b, t') => (t', .item b)
      | .error e => (t, .error e)

/-- Makes a step: the table, unless it is given up, the answer and what is reported. -/
def Step.act (t : KeyTable Int64) : Step → Option (KeyTable Int64) × Answer × List Notice
  | insert key item room =>
    match t.insert key item room with
    | .ok t' => (some t', .done, [])
    | .error e => (some t, .error e, [])
  | find key => (some t, .ofFound (t.find key), [])
  | add key delta => let (t', answer) := addTo t key delta; (some t', answer, [])
  | contains key => (some t, .truth (t.contains key), [])
  | remove key =>
    match t.remove key with
    | .ok (a, t') => (some t', .item a, [])
    | .error e => (some t, .error e, [])
  | insertAny item seed bits shift addend room =>
    let inserted := t.insertAny item seed bits shift addend room
    let report := insertAnyReport bits inserted
    match inserted with
    | .ok (key, t') => (some t', .key key, report)
    | .error e => (some t, .error e, report)
    | .fault f => (some t, .fault f, report)
  | drain => let (es, t') := t.drain; (some t', .entries es, [])
  | list => (some t, .entries t.toList, [])
  | reportChain key => (some t, .done, t.chainReport key)
  | chainLength key => (some t, .count (t.chainOf key).length, [])
  | isEmpty => (some t, .truth t.isEmpty, [])
  | giveUp => (none, .done, t.leftovers)

/-- A step and where it left the table. -/
structure Report where
  answer : Answer
  /-- The number of entries, while the table exists. -/
  size : Option Nat
  log : List Notice

/-- Makes steps one after the other, as long as the table exists. -/
def run (t : KeyTable Int64) : List Step → List Report
  | [] => []
  | s :: rest =>
    match s.act t with
    | (some t', answer, log) => ⟨answer, some t'.size, log⟩ :: run t' rest
    | (none, answer, log) => [⟨answer, none, log⟩]

end BufferObjects.KeyTable.Run
