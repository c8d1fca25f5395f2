import Assay.Console.Basic
import Assay.Text.Lines

/-!
# Outlines

A report is an outline: blocks with a title, drawn with corners and bars, and messages inside them.
A block is closed however its body ends.
-/

namespace Assay

namespace Outline

/-- The lead without its last character. -/
def stem (lead : String) : String := String.ofList lead.toList.dropLast

def opening (lead title : String) : String := stem lead ++ "┌ " ++ title

def closing (lead title : String) : String := stem lead ++ "└ " ++ title

/-- The lead inside a block. -/
def inner (lead : String) : String := stem lead ++ "│ "

/-- The lines of a message. -/
def messageLines (lead message : String) : List String :=
  (Text.lines message).map fun l => lead ++ l

end Outline

namespace Console

/-- Prints a message inside the open blocks. -/
def output (message : String) : Console Unit :=
  modify fun d => { d with printed := d.printed ++ Outline.messageLines d.lead message }

/-- Runs a body inside a block. -/
def within {α : Type} (title : String) (body : Console α) : Console α := fun d =>
  let opened := { d with
    lead := Outline.inner d.lead
    printed := d.printed ++ [Outline.opening d.lead title] }
  let (r, e) := body.start opened
  (r, { e with lead := d.lead, printed := e.printed ++ [Outline.closing d.lead title] })

end Console

namespace Outline

/-- A part of an outline. -/
inductive Item where
  | message (text : String)
  | block (title : String) (body : List Item)
  /-- A fault at this point. -/
  | stop (f : Fault)

mutual

def Item.write : Item → Console Unit
  | .message text => Console.output text
  | .block title body => Console.within title (writeAll body)
  | .stop f => Console.fail f

def writeAll : List Item → Console Unit
  | [] => pure ()
  | i :: is => do
    i.write
    writeAll is

end

end Outline

end Assay
