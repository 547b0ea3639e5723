import Proctor.Main
import Proctor.Rehearsal
import Proctor.Store.Row
import Proctor.Json.Printer
import Proctor.Proofs.Draw
import Proctor.Proofs.Draw.Outcome
import Proctor.Proofs.Draw.Uniform
import Proctor.Proofs.Quota
import Proctor.Proofs.Quota.Windows
import Proctor.Proofs.Quota.Separate
import Proctor.Proofs.Quota.Configured
import Proctor.Proofs.Store.Pages
import Proctor.Proofs.Wire.Answers
import Proctor.Proofs.Store.Change
import Proctor.Proofs.Store.Rows
import Proctor.Proofs.Store.Consistent
import Proctor.Proofs.Store.Lawful
import Proctor.Proofs.Store.Evolution
import Proctor.Proofs.Call.Interference
import Proctor.Proofs.Exam.Fair
import Proctor.Proofs.Course.Basic
import Proctor.Proofs.Course.Invariants
import Proctor.Proofs.Call.Footprint
import Proctor.Proofs.Exam.Effect
import Proctor.Proofs.Course.Verdict
import Proctor.Proofs.Course.Report
import Proctor.Proofs.Course.Scoring
import Proctor.Proofs.Exam.Look
import Proctor.Proofs.Exam.Noticed
import Proctor.Proofs.Exam.Alone
import Proctor.Proofs.Exam.Refusal
import Proctor.Proofs.Store.History
import Proctor.Proofs.Exam.View
import Proctor.Proofs.Exam.Account
import Proctor.Proofs.Hall.Basic
import Proctor.Proofs.Hall.Answers
import Proctor.Proofs.Hall.Endings
import Proctor.Proofs.Hall.Noticing
import Proctor.Proofs.Exam.Trace
import Proctor.Proofs.Hall.Completion
import Proctor.Proofs.Store.Orderly
import Proctor.Proofs.Exam.Steady
import Proctor.Proofs.Hall.Steady
import Proctor.Proofs.Hall.Deadlines
import Proctor.Proofs.Hall.Faultless
import Proctor.Proofs.Hall.Stamps
import Proctor.Proofs.Store.Stock
import Proctor.Proofs.Exam.Sheet
import Proctor.Proofs.Exam.Review
import Proctor.Proofs.Exam.Stock
import Proctor.Proofs.Hall.Stock
import Proctor.Proofs.Hall.Sheets
import Proctor.Proofs.Hall.Reviews
import Proctor.Proofs.Call.Coupling
import Proctor.Proofs.Store.Isolation
import Proctor.Proofs.Exam.Isolation
import Proctor.Proofs.Hall.Isolation
import Proctor.Proofs.Question.Keyless
import Proctor.Proofs.Store.Keyless
import Proctor.Proofs.Exam.Keyless
import Proctor.Proofs.Course.Keyless
import Proctor.Proofs.Table
import Proctor.Proofs.Sorting
import Proctor.Proofs.Store.Filed
import Proctor.Proofs.Exam.Opening
import Proctor.Proofs.Exam.Listing
import Proctor.Proofs.Exam.Paging
import Proctor.Proofs.Question.Answering
import Proctor.Proofs.Store.Suited
import Proctor.Proofs.Exam.Suited
import Proctor.Proofs.Wire.Items
import Proctor.Proofs.Exam.Agreement
import Proctor.Proofs.Hall.Arising
import Proctor.Proofs.Hall.Views
import Proctor.Proofs.Course.Undoing
import Proctor.Proofs.Text.Order
import Proctor.Proofs.Text.Integer
import Proctor.Proofs.Json.Ordered
import Proctor.Proofs.Question.Placing
import Proctor.Proofs.Question.Grading
import Proctor.Proofs.Exam.Sparing
import Proctor.Proofs.Http.Route
import Proctor.Proofs.Http.Handling
import Proctor.Proofs.Http.Visits
import Proctor.Proofs.Exam.Answering
import Proctor.Proofs.Exam.Overwriting
import Proctor.Proofs.Exam.Completing
import Proctor.Proofs.Wire.Placements
import Proctor.Proofs.Hall.Serving
import Proctor.Proofs.Hall.Submissions
import Proctor.Proofs.Hall.Listings
import Proctor.Proofs.Time.Calendar
import Proctor.Proofs.Time.Rfc3339
import Proctor.Proofs.Json.Fields
import Proctor.Proofs.Json.Printed
import Proctor.Proofs.Wire.Storing
import Proctor.Proofs.Exam.Replaced
import Proctor.Proofs.Course.Revising
import Proctor.Proofs.Session.Offset
