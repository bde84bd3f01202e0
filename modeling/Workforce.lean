import Workforce.Compensator
import Workforce.Config
import Workforce.Context.Ambient
import Workforce.Context.Basic
import Workforce.Context.Cell
import Workforce.Context.Element
import Workforce.Dispatcher
import Workforce.Duration
import Workforce.Failure
import Workforce.Gate
import Workforce.Guard
import Workforce.Kind
import Workforce.Network
import Workforce.Payload
import Workforce.Plant.Basic
import Workforce.Plant.Close
import Workforce.Plant.Script
import Workforce.Plant.Settle
import Workforce.Plant.Step
import Workforce.Plant.Unwind
import Workforce.Pool.Basic
import Workforce.Pool.Close
import Workforce.Pool.Compensation
import Workforce.Pool.Submission
import Workforce.Pool.Worker
import Workforce.Scenario.Contexts
import Workforce.Scenario.Guards
import Workforce.Scenario.Pools
import Workforce.Scenario.Shared
import Workforce.Scenario.Timers
import Workforce.Scope
import Workforce.Settings
import Workforce.Slot
import Workforce.Text.Blank
import Workforce.Text.Graphic
import Workforce.Text.Quoted
import Workforce.Text.Ranges
import Workforce.Timer
import Workforce.Proofs.Pool.Order
import Workforce.Proofs.Pool.WorkConservation
import Workforce.Proofs.Pool.Holdings
import Workforce.Proofs.Traffic.Machine
import Workforce.Proofs.Traffic.Ledger
import Workforce.Proofs.Traffic.Crew
import Workforce.Proofs.Traffic.Conservation
import Workforce.Proofs.Traffic.Routes
import Workforce.Proofs.Network.Forwarding
import Workforce.Proofs.Network.Growth
import Workforce.Proofs.Network.Rest
import Workforce.Proofs.Plant.Books
import Workforce.Proofs.Plant.Closing
import Workforce.Proofs.Traffic.Admissions
import Workforce.Proofs.Traffic.Stranding
import Workforce.Proofs.Traffic.Calls
import Workforce.Proofs.Pool.Contributions
import Workforce.Proofs.Guard.Balance
import Workforce.Proofs.Guard.Debts
import Workforce.Proofs.Gate.Order
import Workforce.Proofs.Traffic.Diaries
import Workforce.Proofs.Traffic.Occupancy
import Workforce.Proofs.Pool.Termination
import Workforce.Proofs.Pool.Staff
import Workforce.Proofs.Traffic.Answers
import Workforce.Proofs.Traffic.Estate
import Workforce.Proofs.Traffic.Vacancy
import Workforce.Proofs.Traffic.Exclusion
import Workforce.Proofs.Context.Elements
import Workforce.Proofs.Context.Nesting
import Workforce.Proofs.Pool.Parallelism
import Workforce.Proofs.Context.Interruption
import Workforce.Proofs.Guard.Outstanding
import Workforce.Proofs.Traffic.Guarded
import Workforce.Proofs.Network.Tasks
import Workforce.Proofs.Plant.Scopes
import Workforce.Proofs.Traffic.Nests
import Workforce.Proofs.Context.Tokens
import Workforce.Proofs.Pool.Arrivals
import Workforce.Proofs.Network.Registers
import Workforce.Proofs.Plant.Registers
import Workforce.Proofs.Plant.Rejections
import Workforce.Proofs.Timer.Clockwork
import Workforce.Proofs.Timer.Deadlines
import Workforce.Proofs.Timer.Fates
import Workforce.Proofs.Plant.Reports
import Workforce.Proofs.Traffic.Handles
import Workforce.Proofs.Pool.Slots
import Workforce.Proofs.Traffic.Drivers
import Workforce.Proofs.Traffic.Reckoning
import Workforce.Proofs.Context.Lineage
import Workforce.Proofs.Timer.Endurance
import Workforce.Proofs.Traffic.Narrowing
import Workforce.Proofs.Network.Journeys
import Workforce.Proofs.Plant.Handovers
import Workforce.Proofs.Plant.Barred
import Workforce.Proofs.Traffic.Barred
