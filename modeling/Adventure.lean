import Adventure.CommandLine.Dump
import Adventure.CommandLine.Play
import Adventure.Main
import Adventure.Proofs.Conversation
import Adventure.Proofs.Conversation.Acts
import Adventure.Proofs.Conversation.Effects
import Adventure.Proofs.Conversation.Links
import Adventure.Proofs.Conversation.Marks
import Adventure.Proofs.Conversation.Outline
import Adventure.Proofs.Conversation.Pick
import Adventure.Proofs.Conversation.Settle
import Adventure.Proofs.Conversation.Steady
import Adventure.Proofs.Room.Answers
import Adventure.Proofs.Room.Headings
import Adventure.Proofs.Room.Install
import Adventure.Proofs.Room.Parse
import Adventure.Proofs.Room.Scope
import Adventure.Proofs.Room.Sections
import Adventure.Proofs.Room.Undo
import Adventure.Proofs.Save.MessagePack
import Adventure.Proofs.Save.Record
import Adventure.Proofs.Script.Adoption
import Adventure.Proofs.Script.Agreement
import Adventure.Proofs.Script.Calls
import Adventure.Proofs.Script.Chunk
import Adventure.Proofs.Script.Completion
import Adventure.Proofs.Script.Deeds
import Adventure.Proofs.Script.Exchange
import Adventure.Proofs.Script.Grammar
import Adventure.Proofs.Script.Isolation
import Adventure.Proofs.Script.Lapses
import Adventure.Proofs.Script.Library
import Adventure.Proofs.Script.Lines
import Adventure.Proofs.Script.Phase
import Adventure.Proofs.Script.Playing
import Adventure.Proofs.Script.Quiet
import Adventure.Proofs.Script.Rest
import Adventure.Proofs.Script.Resume
import Adventure.Proofs.Script.Run
import Adventure.Proofs.Script.Scene
import Adventure.Proofs.Script.Store
import Adventure.Proofs.Script.Writes
import Adventure.Proofs.Session.Arrival
import Adventure.Proofs.Session.Change
import Adventure.Proofs.Session.Ground
import Adventure.Proofs.Session.Load
import Adventure.Proofs.Session.Loading
import Adventure.Proofs.Session.Ownership
import Adventure.Proofs.Session.Possession
import Adventure.Proofs.Session.Rebuild
import Adventure.Proofs.Session.Removal
import Adventure.Proofs.Session.Rest
import Adventure.Proofs.Session.Speech
import Adventure.Proofs.Session.Texts
import Adventure.Proofs.Table
import Adventure.Proofs.Text.Blank
import Adventure.Proofs.Text.Number
import Adventure.Proofs.Text.Reader
import Adventure.Proofs.Variables
import Adventure.Proofs.Walk.Cells
import Adventure.Proofs.Walk.Corners
import Adventure.Proofs.Walk.Explore
import Adventure.Proofs.Walk.Path
import Adventure.Proofs.Walk.Search
import Adventure.Proofs.Walk.Straight
import Adventure.Proofs.Conversation.Scan
import Adventure.Proofs.Places
import Adventure.Proofs.Save.Envelope
import Adventure.Proofs.Variables.Count
import Adventure.Proofs.Variables.Grammar
import Adventure.Proofs.Text.Integers
import Adventure.Proofs.Text.Layout
import Adventure.Proofs.Variables.Change
import Adventure.Proofs.Walk.Codec
import Adventure.Proofs.Script.Handles
import Adventure.Proofs.Text.Rejoined
import Adventure.Proofs.Walk.Rounds
